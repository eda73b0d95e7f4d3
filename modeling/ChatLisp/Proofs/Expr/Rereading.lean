import ChatLisp.Proofs.Expr.Readable

/-!
This module contains what becomes of values when their printed form is read again. Like the empty
list, negative integers and `t` have no syntax of their own, and print as symbols.
-/

namespace ChatLisp

namespace Expr

/--
Whether a closure or a native function is in the expression, at any depth.
-/
def holdsFunction : Expr → Bool
  | cons car cdr => car.holdsFunction || cdr.holdsFunction
  | quoted inner => inner.holdsFunction
  | closure _ _ _ _ => true
  | native _ => true
  | sequence exprs => any exprs
  | _ => false
where
  any : List Expr → Bool
    | [] => false
    | e :: es => e.holdsFunction || any es

/--
Every symbol in the expression, and every parameter of a closure in it, has a symbol's name.
-/
def Spelled : Expr → Prop
  | symbol name => isSymbolName name.toList
  | cons car cdr => car.Spelled ∧ cdr.Spelled
  | quoted inner => inner.Spelled
  | closure _ _ params body => (∀ name ∈ params, isSymbolName name.toList) ∧ body.Spelled
  | sequence exprs => all exprs
  | _ => True
where
  all : List Expr → Prop
    | [] => True
    | e :: es => e.Spelled ∧ all es

/--
Every dot in the expression is directly under a quote, apart from those in functions, which are not
printed.
-/
def DotsQuoted : Expr → Prop
  | dot => False
  | cons car cdr => car.DotsQuoted ∧ cdr.DotsQuoted
  | quoted inner => inner = dot ∨ inner.DotsQuoted
  | _ => True

/--
Whether a negative integer or `t` is in the expression, apart from functions.
-/
def hasNamedAtom : Expr → Bool
  | integer value => value.toInt < 0
  | t => true
  | cons car cdr => car.hasNamedAtom || cdr.hasNamedAtom
  | quoted inner => inner.hasNamedAtom
  | _ => false

/--
The expression with symbols in place of negative integers and of `t`.
-/
def nameAtoms : Expr → Expr
  | integer value => if value.toInt < 0 then symbol (toString value.toInt) else integer value
  | t => symbol "t"
  | cons car cdr => cons car.nameAtoms cdr.nameAtoms
  | quoted inner => quoted inner.nameAtoms
  | e => e

theorem spelled_sequence {exprs : List Expr} :
    (sequence exprs).Spelled ↔ ∀ e ∈ exprs, e.Spelled := by
  rw [Spelled]
  induction exprs with
  | nil => simp [Spelled.all]
  | cons e exprs ih => rw [Spelled.all, ih, List.forall_mem_cons]

theorem IsElem.spelled {e : Expr} (h : e.IsElem) : e.Spelled := by
  induction e with
  | symbol name => exact h
  | cons car cdr hcar hcdr => exact ⟨hcar h.1, hcdr h.2⟩
  | quoted inner ih =>
    obtain rfl | h := h
    . trivial
    . exact ih h
  | closure _ _ _ _ => exact absurd h id
  | sequence _ => exact absurd h id
  | _ => trivial

theorem IsPhrase.spelled {e : Expr} (h : e.IsPhrase) : e.Spelled := by
  obtain rfl | h := h
  . trivial
  . exact h.spelled

theorem chars_nameAtoms (position : Position) (e : Expr) :
    e.nameAtoms.chars position = e.chars position := by
  induction e generalizing position with
  | integer value =>
    rw [nameAtoms]
    split
    . rfl
    . rfl
  | cons car cdr hcar hcdr => cases position <;> simp [nameAtoms, chars, hcar, hcdr]
  | quoted inner ih => simp [nameAtoms, chars, ih]
  | _ => rfl

theorem print_nameAtoms (e : Expr) : e.nameAtoms.print = e.print := by
  rw [print, chars_nameAtoms, print]

theorem nameAtoms_eq_self_iff (e : Expr) : e.nameAtoms = e ↔ e.hasNamedAtom = false := by
  induction e with
  | cons car cdr hcar hcdr => simp [nameAtoms, hasNamedAtom, hcar, hcdr]
  | quoted inner ih => simp [nameAtoms, hasNamedAtom, ih]
  | _ => simp [nameAtoms, hasNamedAtom]

end Expr

end ChatLisp
