import Mathlib.Logic.ExistsUnique
import Mathlib.Logic.Relation
import ChatLisp.Expr.List

/-!
This module contains the chains of cons cells that every expression is the head of, an expression
that is no cons cell being a chain without any. The main statement is that such a chain is built
from its items and its end in one way only, and that it is read as a list if `nil` is this end.
-/

namespace ChatLisp.Expr

/--
The one step of a chain, from a cons cell to what is behind its item.
-/
inductive HasCdr : Expr → Expr → Prop where
  | cons (car cdr : Expr) : HasCdr (cons car cdr) cdr

/--
The chain of cdrs that begins with `e` goes on to `tail`, which has none.
-/
structure EndsIn (e tail : Expr) : Prop where
  chain : Relation.ReflTransGen HasCdr e tail
  tail_ne_cons : ∀ car cdr, tail ≠ cons car cdr

variable {e tail tail' car cdr : Expr} {items items' : List Expr}

theorem chain_ofListWithTail (items : List Expr) (tail : Expr) :
    Relation.ReflTransGen HasCdr (ofListWithTail items tail) tail := by
  induction items with
  | nil => exact .refl
  | cons item items ih => exact .head (.cons item _) ih

theorem exists_eq_ofListWithTail_of_chain (h : Relation.ReflTransGen HasCdr e tail) :
    ∃ items, e = ofListWithTail items tail := by
  induction h using Relation.ReflTransGen.head_induction_on with
  | refl => exact ⟨[], rfl⟩
  | head hcdr _ ih =>
    obtain ⟨car, cdr⟩ := hcdr
    obtain ⟨items, rfl⟩ := ih
    exact ⟨car :: items, rfl⟩

theorem endsIn_iff :
    e.EndsIn tail ↔ (∃ items, e = ofListWithTail items tail) ∧ ∀ car cdr, tail ≠ cons car cdr := by
  constructor
  . rintro ⟨hchain, htail⟩
    exact ⟨exists_eq_ofListWithTail_of_chain hchain, htail⟩
  . rintro ⟨⟨items, rfl⟩, htail⟩
    exact ⟨chain_ofListWithTail items tail, htail⟩

theorem exists_endsIn (e : Expr) : ∃ tail, e.EndsIn tail := by
  induction e with
  | cons car cdr _ ih =>
    obtain ⟨tail, hchain, htail⟩ := ih
    exact ⟨tail, .head (.cons car cdr) hchain, htail⟩
  | _ => exact ⟨_, .refl, nofun⟩

theorem ofListWithTail_inj (htail : ∀ car cdr, tail ≠ cons car cdr)
    (htail' : ∀ car cdr, tail' ≠ cons car cdr)
    (h : ofListWithTail items tail = ofListWithTail items' tail') :
    items = items' ∧ tail = tail' := by
  induction items generalizing items' with
  | nil =>
    cases items' with
    | nil => exact ⟨rfl, h⟩
    | cons item' items' => exact absurd h (htail item' _)
  | cons item items ih =>
    cases items' with
    | nil => exact absurd h.symm (htail' item _)
    | cons item' items' =>
      obtain ⟨rfl, hrest⟩ := cons.inj h
      obtain ⟨rfl, rfl⟩ := ih hrest
      exact ⟨rfl, rfl⟩

theorem existsUnique_ofListWithTail (e : Expr) :
    ∃! parts : List Expr × Expr,
      e = ofListWithTail parts.1 parts.2 ∧ ∀ car cdr, parts.2 ≠ cons car cdr := by
  obtain ⟨tail, hends⟩ := e.exists_endsIn
  obtain ⟨⟨items, rfl⟩, htail⟩ := endsIn_iff.mp hends
  refine ⟨(items, tail), ⟨rfl, htail⟩, ?_⟩
  rintro ⟨items', tail'⟩ ⟨h, htail'⟩
  obtain ⟨rfl, rfl⟩ := ofListWithTail_inj htail' htail h.symm
  rfl

theorem items?_ofListWithTail (items : List Expr) (tail : Expr) :
    (ofListWithTail items tail).items? = tail.items?.map (items ++ ·) := by
  induction items with
  | nil =>
    rw [ofListWithTail_nil]
    cases tail.items? <;> rfl
  | cons item items ih =>
    rw [ofListWithTail_cons, items?, ih]
    cases tail.items? <;> rfl

theorem EndsIn.items?_eq_none_iff (h : e.EndsIn tail) : e.items? = none ↔ tail ≠ nil := by
  obtain ⟨⟨items, rfl⟩, htail⟩ := endsIn_iff.mp h
  rw [items?_ofListWithTail, Option.map_eq_none_iff]
  cases tail with
  | nil => simp [items?]
  | cons car cdr => exact absurd rfl (htail car cdr)
  | _ => simp [items?]

/--
Reading the items of a list undoes building the list and is undone by it. There is nothing to be
read exactly if the chain ends in something other than `nil`, and whatever it ends in, the items
before that and the end itself are determined.
-/
theorem list_view_exact (e : Expr) :
    (∀ items, e.items? = some items ↔ e = ofList items) ∧
    (e.items? = none ↔ ∃ tail, e.EndsIn tail ∧ tail ≠ nil) ∧
    ∃! parts : List Expr × Expr,
      e = ofListWithTail parts.1 parts.2 ∧ ∀ car cdr, parts.2 ≠ cons car cdr := by
  refine ⟨fun _ => items?_eq_some_iff, ?_, e.existsUnique_ofListWithTail⟩
  constructor
  . intro hnone
    obtain ⟨tail, hends⟩ := e.exists_endsIn
    exact ⟨tail, hends, hends.items?_eq_none_iff.mp hnone⟩
  . rintro ⟨tail, hends, htail⟩
    exact hends.items?_eq_none_iff.mpr htail

end ChatLisp.Expr
