import ChatLisp.Proofs.Session.Reached

/-!
This module contains the native functions that a session can come by. They are those that every
session starts with, wherever they are stored and whatever they are called by, so each of them is
applied to as many values as it takes.
-/

namespace ChatLisp

/--
What an expression is used as.
-/
inductive Use where
  | value
  | body
deriving DecidableEq

namespace Expr

/--
All native functions in the expression, at any depth, are those of the global scope, and every
sequence in it is the body of a closure.
-/
def Genuine (use : Use) : Expr → Prop
  | cons car cdr => car.Genuine .value ∧ cdr.Genuine .value
  | quoted inner => inner.Genuine .value
  | closure _ _ _ body => body.Genuine .body
  | native f => f ∈ natives
  | sequence exprs => use = .body ∧ all exprs
  | _ => True
where
  all : List Expr → Prop
    | [] => True
    | e :: es => e.Genuine .value ∧ all es

theorem genuine_sequence {use : Use} {exprs : List Expr} :
    (sequence exprs).Genuine use ↔ use = .body ∧ ∀ e ∈ exprs, e.Genuine .value := by
  rw [Genuine]
  apply and_congr_right'
  induction exprs with
  | nil => simp [Genuine.all]
  | cons e exprs ih => rw [Genuine.all, ih, List.forall_mem_cons]

theorem genuine_of_isAtom {use : Use} {e : Expr} (h : e.Genuine use) (hatom : e.isAtom) :
    e.Genuine .value := by
  cases e with
  | sequence _ => cases hatom
  | _ => exact h

theorem genuine_of_items? {e : Expr} {items : List Expr} (h : e.Genuine .value)
    (hitems : e.items? = some items) :
    ∀ item ∈ items, item.Genuine .value :=
  forall_of_items? id h hitems

theorem IsElem.genuine {e : Expr} (h : e.IsElem) : e.Genuine .value := by
  induction e with
  | cons car cdr hcar hcdr => exact ⟨hcar h.1, hcdr h.2⟩
  | quoted inner ih =>
    obtain rfl | h := h
    . trivial
    . exact ih h
  | closure _ _ _ _ => exact absurd h id
  | native _ => exact absurd h id
  | sequence _ => exact absurd h id
  | _ => trivial

theorem IsPhrase.genuine {e : Expr} (h : e.IsPhrase) : e.Genuine .value := by
  obtain rfl | h := h
  . trivial
  . exact h.genuine

end Expr

theorem mem_natives_iff {f : Native} :
    f ∈ natives ↔ ∃ primitive, f = Primitive.native primitive := by
  constructor
  . intro h
    obtain ⟨primitive, _, rfl⟩ := List.mem_map.mp h
    exact ⟨primitive, rfl⟩
  . rintro ⟨primitive, rfl⟩
    apply List.mem_map_of_mem
    cases primitive <;> decide

namespace Primitive

/--
The native functions with the given name take so many arguments.
-/
def Takes (name : String) (count : Nat) : Prop :=
  ∃ primitive : Primitive, primitive.name = name ∧ primitive.arity.Admits count

theorem run_ne_wrongArity {primitive : Primitive} {values : List Expr}
    (h : primitive.arity.Admits values.length) (callee : Callee) (expected found : Nat) :
    primitive.run values ≠ .error (.wrongArity callee expected found) := by
  cases primitive with
  | sub =>
    obtain ⟨a, b, rfl⟩ := List.length_eq_two.mp h
    simp only [run]
    split
    . split <;> rintro ⟨⟩
    . rintro ⟨⟩
    . rintro ⟨⟩
    . next hother => exact absurd rfl (hother a b)
  | cons =>
    obtain ⟨a, b, rfl⟩ := List.length_eq_two.mp h
    rintro ⟨⟩
  | car =>
    obtain ⟨e, rfl⟩ := List.length_eq_one_iff.mp h
    cases e <;> rintro ⟨⟩
  | cdr =>
    obtain ⟨e, rfl⟩ := List.length_eq_one_iff.mp h
    cases e <;> rintro ⟨⟩
  | list => rintro ⟨⟩

theorem apply_wrongCount {primitive : Primitive} {expected : Nat}
    (harity : primitive.arity = .fixed expected) {args values : List Expr}
    (hcount : args.length ≠ expected) (hvalues : values.length = args.length) (depth : Nat)
    (scope : ScopeId) (store : Store) :
    ∃ e, ChatLisp.apply depth (.native primitive.native) (.ofList args) scope store =
        ⟨.error e, store, []⟩ ∧ primitive.run values = .error e ∧
      e = .wrongArity (.native primitive.name) expected args.length := by
  refine ⟨_, ?_, run_eq_wrongCount harity (hvalues.trans_ne hcount), ?_⟩
  rotate_left
  . rw [wrongCount, hvalues]
  have hcheck : Eval.checkArity (.native primitive.name) primitive.arity args.length =
      StoreM.fail (primitive.wrongCount expected values) := by
    rw [harity, Eval.checkArity_of_ne hcount, wrongCount, hvalues]
  rw [ChatLisp.apply, Eval.apply, Expr.items?_ofList]
  change Eval.applyNative _ primitive.native args scope store = _
  rw [Eval.applyNative]
  change (Eval.checkArity (.native primitive.name) primitive.arity args.length).bind _ store = _
  rw [hcheck]
  rfl

end Primitive

namespace Eval

/--
No native functions but the global ones are known of, and each is applied to as many values as it
takes.
-/
def Invariant.genuineness : Invariant where
  Code _ e := ∃ use, e.Genuine use
  Value e := e.Genuine .value
  Name _ := True
  Applied := Primitive.Takes
  MayGiveUp := True
  giveUp _ := trivial
  atom := fun ⟨_, h⟩ hatom => Expr.genuine_of_isAtom h hatom
  quoted := fun ⟨_, h⟩ => h
  member := fun ⟨_, h⟩ e he => ⟨_, (Expr.genuine_sequence.mp h).2 e he⟩
  operator := fun ⟨_, h⟩ => ⟨_, h.1⟩
  operand := fun ⟨_, h⟩ hitems e he => ⟨_, Expr.genuine_of_items? h.2 hitems e he⟩
  closure := fun ⟨_, h⟩ _ _ hexprs _ _ =>
    Expr.genuine_sequence.mpr ⟨rfl, Expr.genuine_of_items? h.2.2 hexprs⟩
  assigned _ _ := trivial
  params _ _ _ := trivial
  body := fun h _ => ⟨_, h⟩
  nil := trivial
  integer _ := trivial
  cons_iff := Iff.rfl
  applied := by
    intro f count hf hadmits
    obtain ⟨primitive, rfl⟩ := mem_natives_iff.mp hf
    exact ⟨primitive, rfl, hadmits⟩

end Eval

namespace Session

open Eval.Invariant

theorem genuine_globals :
    ∀ binding ∈ globalBindings, genuineness.Name binding.1 ∧ genuineness.Value binding.2 := by
  simp only [globalBindings, List.forall_mem_cons, List.forall_mem_map]
  exact ⟨⟨trivial, trivial⟩, ⟨trivial, trivial⟩, fun _ hnative => ⟨trivial, hnative⟩⟩

theorem genuine_exprs (message : String) (depth : Nat) :
    ∀ e ∈ Program.exprs message, genuineness.Code depth e :=
  fun e he => ⟨.value, (Program.isPhrase_exprs message e he).genuine⟩

/--
In every session that can be reached, the values in the store and those that messages are answered
with hold no native functions but the global ones, and no sequences but the bodies of closures. So
each native function is applied to as many values as it takes, and to so many that the primitive
does not complain about their number. The values that are counted in the event are those that the
primitive is run on. A call with any other number of arguments is refused, and in the words of the
primitive.
-/
theorem natives_counted {session : Session} (h : session.Reached fun _ => True) :
    (∀ scope name value, session.store.own? scope name = some value → value.Genuine .value) ∧
    (∀ depth message,
      (∀ value, (Program.run depth message session.scope session.store).outcome = .value value →
        value.Genuine .value) ∧
      ∀ name count, .nativeApplied name count ∈ (session.trigger depth message).events →
        Primitive.Takes name count) ∧
    (∀ (evaluator : Evaluator) (f : Native) args values scope store after events,
      f.arity.Admits args.length →
        Eval.all evaluator scope args store = ⟨.value values, after, events⟩ →
          values.length = args.length ∧
            Eval.applyNative evaluator f args scope store =
              ⟨.ofExcept (f.primitive.run values), after,
                events ++ [.nativeApplied f.name values.length]⟩) ∧
    (∀ (primitive : Primitive) values, primitive.arity.Admits values.length →
      ∀ callee expected found, primitive.run values ≠ .error (.wrongArity callee expected found)) ∧
    ∀ (primitive : Primitive) expected, primitive.arity = .fixed expected →
      ∀ args values : List Expr, args.length ≠ expected → values.length = args.length →
        ∀ depth scope store, ∃ e,
          ChatLisp.apply depth (.native primitive.native) (.ofList args) scope store =
            ⟨.error e, store, []⟩ ∧ primitive.run values = .error e ∧
          e = .wrongArity (.native primitive.name) expected args.length := by
  have hobeys : session.Obeys genuineness :=
    h.obeys genuine_globals fun message _ depth => genuine_exprs message depth
  refine ⟨?_, ?_, ?_, ?_, ?_⟩
  . intro scope name value hvalue
    exact hobeys.store.value hvalue
  . intro depth message
    have hrun := hobeys.run (genuine_exprs message depth)
    constructor
    . intro value hvalue
      exact (hrun.value value hvalue).value
    . intro name count hmem
      rw [nativeApplied_mem_trigger] at hmem
      exact hrun.applied name count hmem
  . intro evaluator f args values scope store after events hadmits hall
    constructor
    . exact Eval.length_of_all (congrArg Run.outcome hall)
    . exact Eval.applyNative_of_all hadmits hall
  . intro primitive values hadmits
    exact Primitive.run_ne_wrongArity hadmits
  . intro primitive expected harity args values hcount hvalues
    exact Primitive.apply_wrongCount harity hcount hvalues

theorem natives_counted_renamed :
    let setting := "(setq f (list - cons)) (setq g (lambda (car) (car 5 3)))"
    let calling := "(g (car f))"
    (start.trigger 6 setting).session.Reached (fun _ => True) ∧
      .nativeApplied "-" 2 ∈ ((start.trigger 6 setting).session.trigger 6 calling).events ∧
      Primitive.Takes "-" 2 := by
  intro setting calling
  have hreached : (start.trigger 6 setting).session.Reached fun _ => True :=
    .trigger 6 .start trivial
  have hevents : ((start.trigger 6 setting).session.trigger 6 calling).events =
      [.tokenized 7, .evaluating 1, .nativeApplied "car" 1,
        .bound "car" (.native Primitive.sub.native), .closureApplied 1, .nativeApplied "-" 2] := by
    cbv
  have happlied : .nativeApplied "-" 2 ∈
      ((start.trigger 6 setting).session.trigger 6 calling).events := by
    simp [hevents]
  exact ⟨hreached, happlied, ((natives_counted hreached).2.1 6 calling).2 _ _ happlied⟩

end Session

end ChatLisp
