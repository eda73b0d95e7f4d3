import ChatLisp.Expr.Basic

/-!
This module contains the lists among the expressions: chains of cons cells that end in `nil`, or in
another tail if they are dotted. The main statements are that building a list and reading its items
are inverse to each other.
-/

namespace ChatLisp.Expr

/--
The chain of cons cells with the given items that ends in `tail`.
-/
def ofListWithTail (items : List Expr) (tail : Expr) : Expr :=
  items.foldr cons tail

def ofList (items : List Expr) : Expr :=
  ofListWithTail items nil

/--
The items of a proper list. A dotted list has none, nor has a value that is no list at all.
-/
def items? : Expr → Option (List Expr)
  | nil => some []
  | cons car cdr => cdr.items?.map (car :: ·)
  | _ => none

@[simp]
theorem ofListWithTail_nil (tail : Expr) : ofListWithTail [] tail = tail :=
  rfl

@[simp]
theorem ofListWithTail_cons (item : Expr) (items : List Expr) (tail : Expr) :
    ofListWithTail (item :: items) tail = cons item (ofListWithTail items tail) :=
  rfl

@[simp]
theorem ofList_nil : ofList [] = nil :=
  rfl

@[simp]
theorem ofList_cons (item : Expr) (items : List Expr) :
    ofList (item :: items) = cons item (ofList items) :=
  rfl

@[simp]
theorem items?_ofList (items : List Expr) : (ofList items).items? = some items := by
  induction items with
  | nil => rfl
  | cons item items ih => simp [items?, ih]

theorem eq_ofList_of_items? {e : Expr} {items : List Expr} (h : e.items? = some items) :
    e = ofList items := by
  induction e generalizing items with
  | nil =>
    cases h
    rfl
  | cons car cdr _ ih =>
    obtain ⟨rest, hrest, rfl⟩ := Option.map_eq_some_iff.mp h
    rw [ofList_cons, ← ih hrest]
  | _ => simp [items?] at h

theorem items?_eq_some_iff {e : Expr} {items : List Expr} :
    e.items? = some items ↔ e = ofList items := by
  constructor
  . exact eq_ofList_of_items?
  . rintro rfl
    exact items?_ofList items

theorem items?_eq_none_iff {e : Expr} : e.items? = none ↔ ∀ items, e ≠ ofList items := by
  rw [Option.eq_none_iff_forall_ne_some]
  exact forall_congr' fun items => not_congr items?_eq_some_iff

theorem forall_of_items? {P Q : Expr → Prop}
    (hcons : ∀ {car cdr}, P (cons car cdr) → Q car ∧ P cdr) {e : Expr} {items : List Expr}
    (h : P e) (hitems : e.items? = some items) :
    ∀ item ∈ items, Q item := by
  rw [eq_ofList_of_items? hitems] at h
  clear hitems
  induction items with
  | nil => exact fun _ hmem => absurd hmem List.not_mem_nil
  | cons first items ih =>
    obtain ⟨hfirst, hrest⟩ := hcons h
    exact List.forall_mem_cons.mpr ⟨hfirst, ih hrest⟩

end ChatLisp.Expr
