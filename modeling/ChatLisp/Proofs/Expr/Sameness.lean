import Mathlib
import ChatLisp.Expr.Equality
import ChatLisp.Expr.Print

/-!
This module contains the equality of values as an equivalence. Two values are equal if they have
the same essence, which is what equality looks at: of a closure that it is this one, of a native
function its name, and of everything else the structure. The form that a value prints in and the
data that it is hashed by come from its essence, so a set holds each value once.
-/

namespace ChatLisp.Expr

/--
The value with a blank in place of everything that does not matter for its equality.
-/
def essence : Expr → Expr
  | cons car cdr => cons car.essence cdr.essence
  | quoted inner => quoted inner.essence
  | closure serial _ _ _ => closure serial 0 [] nil
  | native f => native ⟨f.name, default, default⟩
  | sequence exprs => sequence (all exprs)
  | e => e
where
  all : List Expr → List Expr
    | [] => []
    | e :: es => e.essence :: all es

theorem essence_sequence (exprs : List Expr) :
    (sequence exprs).essence = sequence (exprs.map essence) := by
  rw [essence]
  congr 1
  induction exprs with
  | nil => rfl
  | cons e exprs ih => rw [essence.all, ih, List.map_cons]

theorem beq_iff_essence_eq {a b : Expr} : a == b ↔ a.essence = b.essence := by
  change a.beq b ↔ a.essence = b.essence
  induction a generalizing b with
  | cons car cdr hcar hcdr => cases b <;> simp [Expr.beq, essence, hcar, hcdr]
  | quoted inner ih => cases b <;> simp [Expr.beq, essence, ih]
  | sequence exprs ih =>
    cases b with
    | sequence exprs' =>
      rw [Expr.beq, essence_sequence, essence_sequence, sequence.injEq]
      induction exprs generalizing exprs' with
      | nil => cases exprs' <;> simp [Expr.beq.all]
      | cons e exprs ihs =>
        obtain ⟨he, hexprs⟩ := List.forall_mem_cons.mp ih
        cases exprs' <;> simp [Expr.beq.all, he, ihs hexprs]
    | _ => simp [Expr.beq, essence]
  | _ => cases b <;> simp [Expr.beq, essence]

@[simp]
theorem beq_self (e : Expr) : e.beq e = true :=
  beq_iff_essence_eq.mpr rfl

theorem typeName_essence (e : Expr) : e.essence.typeName = e.typeName := by
  cases e <;> rfl

theorem chars_essence (position : Position) (e : Expr) :
    e.essence.chars position = e.chars position := by
  induction e generalizing position with
  | cons car cdr hcar hcdr => cases position <;> simp [essence, chars, hcar, hcdr]
  | quoted inner ih => simp [essence, chars, ih]
  | sequence exprs ih =>
    rw [essence_sequence, chars, chars]
    congr 1
    induction exprs with
    | nil => rfl
    | cons e exprs ihs =>
      obtain ⟨he, hexprs⟩ := List.forall_mem_cons.mp ih
      cases exprs with
      | nil => exact he .item
      | cons e' exprs => simp_all [chars.all]
  | _ => rfl

theorem hashData_essence (e : Expr) : e.essence.hashData = e.hashData := by
  induction e with
  | cons car cdr hcar hcdr => simp [essence, hashData, form, hcar, hcdr]
  | quoted inner ih => simp [essence, hashData, form, ih]
  | sequence exprs ih =>
    rw [essence_sequence, hashData, hashData, List.length_map]
    congr 2
    induction exprs with
    | nil => rfl
    | cons e exprs ihs =>
      obtain ⟨he, hexprs⟩ := List.forall_mem_cons.mp ih
      rw [List.map_cons, hashData.all, hashData.all, he, ihs hexprs]
  | _ => rfl

theorem hashData_eq_of_beq {a b : Expr} (h : a == b) : a.hashData = b.hashData := by
  rw [← hashData_essence, beq_iff_essence_eq.mp h, hashData_essence]

instance : EquivBEq Expr where
  rfl := beq_self _
  symm h := beq_iff_essence_eq.mpr (beq_iff_essence_eq.mp h).symm
  trans h h' := beq_iff_essence_eq.mpr ((beq_iff_essence_eq.mp h).trans (beq_iff_essence_eq.mp h'))

instance : LawfulHashable Expr where
  hash_eq _ _ h := congrArg (fun data : List HashDatum => hash data) (hashData_eq_of_beq h)

theorem contains_iff_essence_mem {exprs : List Expr} {e : Expr} :
    exprs.contains e ↔ e.essence ∈ exprs.map essence := by
  rw [List.contains_iff_exists_mem_beq, List.mem_map]
  exact exists_congr fun _ => and_congr_right fun _ => beq_iff_essence_eq.trans eq_comm

theorem nodup_map_essence {exprs : List Expr}
    (h : exprs.Pairwise fun a b => (a == b) = false) :
    (exprs.map essence).Nodup := by
  rw [List.Nodup, List.pairwise_map]
  refine h.imp ?_
  intro a b hab heq
  rw [beq_iff_essence_eq.mpr heq] at hab
  cases hab

theorem length_eq_of_contains_eq {as bs : List Expr}
    (has : as.Pairwise fun a b => (a == b) = false)
    (hbs : bs.Pairwise fun a b => (a == b) = false)
    (h : ∀ e, as.contains e = bs.contains e) :
    as.length = bs.length := by
  -- Equal values need not be the same, but their essences are.
  have hperm : (as.map essence).Perm (bs.map essence) := by
    rw [List.perm_ext_iff_of_nodup (nodup_map_essence has) (nodup_map_essence hbs)]
    intro x
    constructor
    . intro hx
      obtain ⟨a, _, rfl⟩ := List.mem_map.mp hx
      rwa [← contains_iff_essence_mem, ← h, contains_iff_essence_mem]
    . intro hx
      obtain ⟨b, _, rfl⟩ := List.mem_map.mp hx
      rwa [← contains_iff_essence_mem, h, contains_iff_essence_mem]
  simpa using hperm.length_eq

theorem exists_kept (exprs : List Expr) :
    ∃ kept : List Expr, kept.length = distinct exprs ∧
      (kept.Pairwise fun a b => (a == b) = false) ∧ ∀ e, kept.contains e = exprs.contains e := by
  refine ⟨(Std.HashSet.ofList exprs).toList, Std.HashSet.length_toList,
    Std.HashSet.distinct_toList, ?_⟩
  intro e
  rw [Std.HashSet.contains_toList, Std.HashSet.contains_ofList]

theorem distinct_eq_of_contains_eq {as bs : List Expr}
    (h : ∀ e, as.contains e = bs.contains e) :
    distinct as = distinct bs := by
  obtain ⟨keptA, hlengthA, hdistinctA, hcontainsA⟩ := exists_kept as
  obtain ⟨keptB, hlengthB, hdistinctB, hcontainsB⟩ := exists_kept bs
  rw [← hlengthA, ← hlengthB]
  apply length_eq_of_contains_eq hdistinctA hdistinctB
  intro e
  rw [hcontainsA, hcontainsB, h]

/--
Values are equal if their essences are. This is an equivalence, and equal values have the same type,
print the same and give the same data to a hash function. A set keeps one of all values of a list
that are equal, so it has as many values for all lists that have the same members up to equality, in
whatever order and however often.
-/
theorem equality_sound :
    (∀ a b : Expr, a == b ↔ a.essence = b.essence) ∧
    (∀ a : Expr, a == a) ∧
    (∀ a b : Expr, a == b → b == a) ∧
    (∀ a b c : Expr, a == b → b == c → a == c) ∧
    (∀ a b : Expr, a == b →
      a.typeName = b.typeName ∧ a.print = b.print ∧ a.hashData = b.hashData) ∧
    (∀ exprs : List Expr, ∃ kept : List Expr, kept.length = distinct exprs ∧
      (kept.Pairwise fun a b => (a == b) = false) ∧ ∀ e, kept.contains e = exprs.contains e) ∧
    ∀ as bs : List Expr, (∀ e, as.contains e = bs.contains e) → distinct as = distinct bs := by
  refine ⟨fun _ _ => beq_iff_essence_eq, fun _ => BEq.rfl, fun _ _ => BEq.symm,
    fun _ _ _ => BEq.trans, ?_, exists_kept, fun _ _ => distinct_eq_of_contains_eq⟩
  intro a b h
  have hessence := beq_iff_essence_eq.mp h
  refine ⟨?_, ?_, hashData_eq_of_beq h⟩
  . rw [← typeName_essence, hessence, typeName_essence]
  . rw [print, ← chars_essence, hessence, chars_essence, print]

/--
One closure as seen in two stores, and two native functions of one name, inside of a pair.
-/
theorem equality_sound_pairs :
    let a := cons (closure 3 0 ["x"] (symbol "x")) (native ⟨"car", .fixed 1, .car⟩)
    let b := cons (closure 3 8 [] nil) (native ⟨"car", .variadic, .cdr⟩)
    a == b ∧ a.print = b.print ∧ a.hashData = b.hashData ∧
    distinct [a, t, b, a] = distinct [t, b] := by
  intro a b
  obtain ⟨_, _, _, _, hsame, _, hdistinct⟩ := equality_sound
  have hab : a == b := by decide
  obtain ⟨_, hprint, hdata⟩ := hsame a b hab
  refine ⟨hab, hprint, hdata, hdistinct _ _ ?_⟩
  intro e
  have he : (e == a) = (e == b) := BEq.congr_right hab
  cases hb : e == b <;> simp [List.contains_cons, he, hb]

end ChatLisp.Expr
