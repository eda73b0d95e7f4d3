import ChatLisp.Proofs.Eval.CallPaths

/-!
This module contains the arithmetic of the language: subtractions that are nested in any way. What
is computed is the exact difference, or else the subtraction that is the first to leave the range of
the integers is refused, in the order in which the parts of an expression are evaluated.
-/

namespace ChatLisp

/--
The number is one of the integers of the language.
-/
def InRange (n : Int) : Prop :=
  -9223372036854775808 ≤ n ∧ n ≤ 9223372036854775807

instance (n : Int) : Decidable (InRange n) :=
  inferInstanceAs (Decidable (_ ∧ _))

theorem inRange_toInt (i : Int64) : InRange i.toInt :=
  ⟨i.le_toInt, Int.le_of_lt_add_one i.toInt_lt⟩

theorem integerOfInt?_eq_none_iff {n : Int} : integerOfInt? n = none ↔ ¬ InRange n := by
  simp [integerOfInt?, InRange]

/--
An integer literal, or the difference of two such expressions.
-/
inductive Difference where
  | literal (value : Int64)
  | minus (a b : Difference)

namespace Difference

def expr : Difference → Expr
  | literal value => .integer value
  | minus a b => .ofList [.symbol "-", a.expr, b.expr]

/--
The exact value, of any size.
-/
def value : Difference → Int
  | literal value => value.toInt
  | minus a b => a.value - b.value

/--
All subexpressions, from left to right, and the parts of a difference before the difference.
-/
def parts : Difference → List Difference
  | literal value => [literal value]
  | minus a b => a.parts ++ b.parts ++ [minus a b]

/--
What an expression comes to: its exact value if all its parts are in range. Otherwise an error that
names the exact operands of the first part that is not.
-/
inductive ComesTo (d : Difference) : Outcome EvalError Expr → Prop
  | exact (result : Int64) :
    (∀ part ∈ d.parts, InRange part.value) → result.toInt = d.value →
    ComesTo d (.value (.integer result))
  | overflow (front back : List Difference) (a b : Difference) (minuend subtrahend : Int64) :
    d.parts = front ++ minus a b :: back → (∀ part ∈ front, InRange part.value) →
    ¬ InRange (minus a b).value → minuend.toInt = a.value → subtrahend.toInt = b.value →
    ComesTo d (.error (.integerOverflow minuend subtrahend))

namespace ComesTo

variable {a b : Difference} {error : EvalError} {x y : Int64}

theorem left (h : a.ComesTo (.error error)) (b : Difference) :
    (minus a b).ComesTo (.error error) := by
  cases h with
  | overflow front back a' b' minuend subtrahend hparts hfront hpart hminuend hsubtrahend =>
    apply overflow front (back ++ b.parts ++ [minus a b]) a' b' _ _ _ hfront hpart hminuend
      hsubtrahend
    simp [parts, hparts]

theorem right (ha : ∀ part ∈ a.parts, InRange part.value) (h : b.ComesTo (.error error)) :
    (minus a b).ComesTo (.error error) := by
  cases h with
  | overflow front back a' b' minuend subtrahend hparts hfront hpart hminuend hsubtrahend =>
    apply overflow (a.parts ++ front) (back ++ [minus a b]) a' b' _ _ _ _ hpart hminuend hsubtrahend
    . simp [parts, hparts]
    . exact List.forall_mem_append.mpr ⟨ha, hfront⟩

theorem sub (ha : a.ComesTo (.value (.integer x))) (hb : b.ComesTo (.value (.integer y))) :
    (minus a b).ComesTo (.ofExcept (Primitive.sub.run [.integer x, .integer y])) := by
  cases ha with
  | exact _ haparts hx =>
    cases hb with
    | exact _ hbparts hy =>
      have hoperands := List.forall_mem_append.mpr ⟨haparts, hbparts⟩
      have hvalue : (minus a b).value = x.toInt - y.toInt := by rw [value, hx, hy]
      simp only [Primitive.run]
      cases hresult : integerOfInt? (x.toInt - y.toInt) with
      | some result =>
        rw [integerOfInt?_eq_some_iff, ← hvalue] at hresult
        have hwhole : InRange (minus a b).value := hresult ▸ inRange_toInt result
        apply exact result _ hresult
        rw [parts]
        exact List.forall_mem_append.mpr ⟨hoperands, List.forall_mem_singleton.mpr hwhole⟩
      | none =>
        rw [integerOfInt?_eq_none_iff, ← hvalue] at hresult
        exact overflow _ [] a b x y rfl hoperands hresult hx hy

theorem forall_inRange {d : Difference} {result : Expr} (h : d.ComesTo (.value result)) :
    ∀ part ∈ d.parts, InRange part.value := by
  cases h with
  | exact _ hparts _ => exact hparts

theorem eq_value_or_error {d : Difference} {outcome : Outcome EvalError Expr}
    (h : d.ComesTo outcome) :
    (∃ result, outcome = .value (.integer result)) ∨ ∃ error, outcome = .error error := by
  cases h with
  | exact result _ _ => exact .inl ⟨result, rfl⟩
  | overflow _ _ _ _ minuend subtrahend _ _ _ _ _ => exact .inr ⟨_, rfl⟩

theorem exists_integer {d : Difference} {outcome : Outcome EvalError Expr} (h : d.ComesTo outcome)
    (hparts : ∀ part ∈ d.parts, InRange part.value) :
    ∃ result, outcome = .value (.integer result) ∧ result.toInt = d.value := by
  cases h with
  | exact result _ hresult => exact ⟨result, rfl, hresult⟩
  | overflow front back a b minuend subtrahend hcut _ hpart _ _ =>
    exact absurd (hparts _ (hcut ▸ List.mem_append_cons_self)) hpart

theorem exists_overflow {d : Difference} {outcome : Outcome EvalError Expr} (h : d.ComesTo outcome)
    (hparts : ¬ ∀ part ∈ d.parts, InRange part.value) :
    ∃ front a b back error, d.parts = front ++ minus a b :: back ∧
      (∀ part ∈ front, InRange part.value) ∧ ¬ InRange (minus a b).value ∧
      outcome = .error error ∧
      error.message = "invalid arguments: integer overflow in (- " ++ toString a.value ++ " "
        ++ toString b.value ++ ")" := by
  cases h with
  | exact _ hall _ => exact absurd hall hparts
  | overflow front back a b minuend subtrahend hcut hfront hpart hminuend hsubtrahend =>
    refine ⟨front, a, b, back, .integerOverflow minuend subtrahend, hcut, hfront, hpart, rfl, ?_⟩
    rw [← hminuend, ← hsubtrahend]
    rfl

end ComesTo

open Eval StoreM

section

variable {a b : Expr} {scope : ScopeId} {store after : Store}
  (hminus : store.lookup? scope "-" = some (.native Primitive.sub.native))

include hminus

theorem ends_minus {depth : Nat} {x y : Expr}
    (hoperands : (Eval.all (evaluate (depth + 1)) store.nextScope [a, b]).Ends
      (store.enclose scope) (.value [x, y]) after) :
    (evaluate (depth + 2) (.ofList [.symbol "-", a, b]) scope).Ends store
      (.ofExcept (Primitive.sub.run [x, y])) after := by
  have hadmits : Primitive.sub.native.arity.Admits [a, b].length := rfl
  exact ends_call (by decide) hminus rfl (ends_apply_native hadmits hoperands)

theorem ends_minus_error {depth : Nat} {error : EvalError}
    (hoperands : (Eval.all (evaluate (depth + 1)) store.nextScope [a, b]).Ends
      (store.enclose scope) (.error error) after) :
    (evaluate (depth + 2) (.ofList [.symbol "-", a, b]) scope).Ends store (.error error) after := by
  have hadmits : Primitive.sub.native.arity.Admits [a, b].length := rfl
  exact ends_call (by decide) hminus rfl (ends_apply_native_error hadmits hoperands)

end

theorem exists_ends (d : Difference) {scope : ScopeId} {store : Store}
    (hminus : store.lookup? scope "-" = some (.native Primitive.sub.native)) :
    ∃ depth outcome after,
      (∀ more ≥ depth, (evaluate more d.expr scope).Ends store outcome after) ∧
        d.ComesTo outcome ∧ store.SameFrames after := by
  induction d generalizing scope store with
  | literal value =>
    refine ⟨1, .value (.integer value), store, ?_, ?_, .refl store⟩
    . intro more hmore
      obtain ⟨depth, rfl⟩ := Nat.exists_eq_add_of_le' hmore
      exact ⟨rfl, rfl⟩
    . exact .exact value (List.forall_mem_singleton.mpr (inRange_toInt value)) rfl
  | minus a b iha ihb =>
    have hscope := Store.lt_size_of_lookup? hminus
    have hinner := (Store.lookup?_enclose_nextScope hscope "-").trans hminus
    have hlt : store.nextScope < (store.enclose scope).frames.size := by
      rw [Store.size_frames_enclose]
      exact Nat.lt_succ_self _
    obtain ⟨least, outcome, between, hends, hcomes, hframes⟩ := iha hinner
    have hbetween := (store.sameFrames_enclose scope).trans hframes
    obtain ⟨x, rfl⟩ | ⟨error, rfl⟩ := hcomes.eq_value_or_error
    . -- The second operand starts from the store that the first one leaves, in the same new scope.
      have hagain := (hframes.lookup?_eq hlt "-").trans hinner
      obtain ⟨least', outcome', after, hends', hcomes', hframes'⟩ := ihb hagain
      have hafter := hbetween.trans hframes'
      obtain ⟨y, rfl⟩ | ⟨error, rfl⟩ := hcomes'.eq_value_or_error
      . refine ⟨max least least' + 2, _, after, ?_, hcomes.sub hcomes', hafter⟩
        intro more hmore
        obtain ⟨depth, rfl⟩ := Nat.exists_eq_add_of_le' (Nat.le_of_add_left_le hmore)
        have hfirst := hends (depth + 1) (by omega)
        have hsecond := hends' (depth + 1) (by omega)
        exact ends_minus hminus (ends_all_cons hfirst (ends_all_cons hsecond (ends_all_nil ..)))
      . refine ⟨max least least' + 2, _, after, ?_, hcomes'.right hcomes.forall_inRange, hafter⟩
        intro more hmore
        obtain ⟨depth, rfl⟩ := Nat.exists_eq_add_of_le' (Nat.le_of_add_left_le hmore)
        have hfirst := hends (depth + 1) (by omega)
        have hsecond := hends' (depth + 1) (by omega)
        exact ends_minus_error hminus (ends_all_cons_error hfirst hsecond.bind_error)
    . refine ⟨least + 2, _, between, ?_, hcomes.left b, hbetween⟩
      intro more hmore
      obtain ⟨depth, rfl⟩ := Nat.exists_eq_add_of_le' (Nat.le_of_add_left_le hmore)
      exact ends_minus_error hminus (hends (depth + 1) (by omega)).bind_error

/--
Wherever the name means the native function, subtractions that are nested in any way give the exact
difference if all parts are in range. Otherwise the first part that is not is refused, and the
message has its exact operands. No frame that was there before is changed.
-/
theorem exact_or_refused (d : Difference) {scope : ScopeId} {store : Store}
    (hminus : store.lookup? scope "-" = some (.native Primitive.sub.native)) :
    ∃ depth outcome after,
      (∀ more ≥ depth, (evaluate more d.expr scope).Ends store outcome after) ∧
        store.SameFrames after ∧
        ((∀ part ∈ d.parts, InRange part.value) →
          ∃ result, outcome = .value (.integer result) ∧ result.toInt = d.value) ∧
        ((¬ ∀ part ∈ d.parts, InRange part.value) →
          ∃ front a b back error, d.parts = front ++ minus a b :: back ∧
            (∀ part ∈ front, InRange part.value) ∧ ¬ InRange (minus a b).value ∧
            outcome = .error error ∧
            error.message = "invalid arguments: integer overflow in (- " ++ toString a.value ++ " "
              ++ toString b.value ++ ")") := by
  obtain ⟨depth, outcome, after, hends, hcomes, hframes⟩ := exists_ends d hminus
  exact ⟨depth, outcome, after, hends, hframes, hcomes.exists_integer, hcomes.exists_overflow⟩

/--
Both operands leave the range here, one below and one above. The one on the left is refused.
-/
theorem exact_or_refused_leftmost :
    let store := Store.empty.addGlobal
    let below := minus (minus (literal 0) (literal 9223372036854775807)) (literal 2)
    let above := minus (literal 9223372036854775807) (minus (literal 0) (literal 1))
    store.lookup? 0 "-" = some (.native Primitive.sub.native) ∧
    (¬ ∀ part ∈ (minus below above).parts, InRange part.value) ∧
    (evaluate 5 (minus below above).expr 0 store).outcome =
      .error (.integerOverflow (-9223372036854775807) 2) ∧
    ∃ depth after front a b back error,
      (∀ more ≥ depth, (evaluate more (minus below above).expr 0).Ends store (.error error) after) ∧
        store.SameFrames after ∧ (minus below above).parts = front ++ minus a b :: back ∧
        error.message = "invalid arguments: integer overflow in (- " ++ toString a.value ++ " "
          ++ toString b.value ++ ")" := by
  intro store below above
  have hminus : store.lookup? 0 "-" = some (.native Primitive.sub.native) := by cbv
  have hparts : ¬ ∀ part ∈ (minus below above).parts, InRange part.value := by decide
  obtain ⟨depth, outcome, after, hends, hframes, -, hoverflow⟩ :=
    exact_or_refused (minus below above) hminus
  obtain ⟨front, a, b, back, error, hcut, -, -, rfl, hmessage⟩ := hoverflow hparts
  exact ⟨hminus, hparts, by cbv, depth, after, front, a, b, back, error, hends, hframes, hcut,
    hmessage⟩

end Difference

end ChatLisp
