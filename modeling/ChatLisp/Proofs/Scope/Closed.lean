import ChatLisp.Proofs.Scope.Pairing

/-!
This module contains closed stores: all scopes that something in such a store leads to are in it.
The store that everything starts from is closed, and it stays closed when scopes are added and when
values are defined that lead to no other scopes.
-/

namespace ChatLisp

/--
All closures in the expression were made in the first `size` scopes.
-/
def Expr.Within (size : Nat) (e : Expr) : Prop :=
  ∀ captured ∈ e.captures, captured < size

namespace Expr

variable {size : Nat}

theorem Within.mono {more : Nat} (hle : size ≤ more) {e : Expr} (h : e.Within size) :
    e.Within more := by
  intro captured hcaptured
  exact Nat.lt_of_lt_of_le (h captured hcaptured) hle

@[simp]
theorem within_integer (value : Int64) : (integer value).Within size :=
  nofun

@[simp]
theorem within_nil : nil.Within size :=
  nofun

@[simp]
theorem within_cons {car cdr : Expr} :
    (cons car cdr).Within size ↔ car.Within size ∧ cdr.Within size := by
  simp only [Within, captures, List.forall_mem_append]

@[simp]
theorem within_quoted {inner : Expr} : (quoted inner).Within size ↔ inner.Within size := by
  simp only [Within, captures]

@[simp]
theorem within_closure {serial : Nat} {scope : ScopeId} {params : List String} {body : Expr} :
    (closure serial scope params body).Within size ↔ scope < size ∧ body.Within size := by
  simp only [Within, captures, List.forall_mem_cons]

@[simp]
theorem within_sequence {exprs : List Expr} :
    (sequence exprs).Within size ↔ ∀ e ∈ exprs, e.Within size := by
  simp only [Within, captures_sequence, List.forall_mem_flatMap]

@[simp]
theorem within_ofList {items : List Expr} :
    (ofList items).Within size ↔ ∀ item ∈ items, item.Within size := by
  induction items with
  | nil => simp
  | cons item items ih => rw [ofList_cons, within_cons, List.forall_mem_cons, ih]

theorem Within.of_items? {e : Expr} {items : List Expr} (h : e.Within size)
    (hitems : e.items? = some items) :
    ∀ item ∈ items, item.Within size :=
  forall_of_items? within_cons.mp h hitems

end Expr

theorem Primitive.within_run {primitive : Primitive} {args : List Expr} {value : Expr} {size : Nat}
    (h : primitive.run args = .ok value) (hargs : ∀ arg ∈ args, arg.Within size) :
    value.Within size := by
  unfold run at h
  split at h
  . split at h
    . split at h
      . cases h
        exact Expr.within_integer _
      . cases h
    all_goals cases h
  . split at h
    . cases h
      simpa using hargs
    . cases h
  . split at h
    . cases h
      simp only [List.forall_mem_singleton, Expr.within_cons] at hargs
      exact hargs.1
    all_goals cases h
  . split at h
    . cases h
      simp only [List.forall_mem_singleton, Expr.within_cons] at hargs
      exact hargs.2
    all_goals cases h
  . cases h
    exact Expr.within_ofList.mpr hargs

namespace Store

variable {store : Store} {scope : ScopeId} {name : String} {value : Expr}

/--
Every scope lies in an earlier one.
-/
def Nested (store : Store) : Prop :=
  ∀ ⦃scope outer⦄, store.outer? scope = some outer → outer < scope

/--
Every scope lies in an earlier one, and all closures were made in scopes of the store.
-/
structure Closed (store : Store) : Prop where
  nested : store.Nested
  within : ∀ {scope name value}, store.own? scope name = some value →
    value.Within store.frames.size

theorem getElem?_frames_push (store : Store) (frame : Frame) (scope : ScopeId) :
    (store.push frame).frames[scope]? =
      if scope = store.nextScope then some frame else store.frames[scope]? := by
  rw [push, Array.getElem?_push, nextScope]

theorem Nested.push (h : store.Nested) {frame : Frame}
    (houter : ∀ outer, frame.outer = some outer → outer < store.frames.size) :
    (store.push frame).Nested := by
  intro scope outer hframe
  rw [outer?, getElem?_frames_push] at hframe
  split at hframe
  . next hscope =>
    subst hscope
    exact houter outer hframe
  . exact h hframe

theorem Nested.define (h : store.Nested) (scope : ScopeId) (name : String) (value : Expr) :
    (store.define scope name value).Nested := by
  intro other outer houter
  rw [outer?_define] at houter
  exact h houter

theorem within_global (h : globalBindings.get? name = some value) (size : Nat) :
    value.Within size := by
  have hall : ∀ binding ∈ globalBindings, binding.2.captures = [] := by decide
  rw [Expr.Within, hall _ (Bindings.mem_of_get? h)]
  nofun

theorem closed_empty : Store.empty.Closed := by
  constructor
  . intro scope outer houter
    exact absurd (lt_size_of_outer? houter) (Nat.not_lt_zero scope)
  . intro scope name value hvalue
    cases hvalue

namespace Closed

theorem push (h : store.Closed) {frame : Frame}
    (houter : ∀ outer, frame.outer = some outer → outer < store.frames.size)
    (hbindings : ∀ name value, frame.bindings.get? name = some value →
      value.Within store.frames.size) :
    (store.push frame).Closed := by
  constructor
  . exact h.nested.push houter
  . intro scope name value hvalue
    have hwithin : value.Within store.frames.size := by
      rw [own?, getElem?_frames_push] at hvalue
      split at hvalue
      . exact hbindings name value hvalue
      . exact h.within hvalue
    rw [Store.push, Array.size_push]
    exact hwithin.mono (Nat.le_succ _)

theorem addGlobal (h : store.Closed) : store.addGlobal.Closed := by
  apply h.push
  . nofun
  . intro name value hvalue
    exact within_global hvalue _

theorem enclose (h : store.Closed) {outer : ScopeId} (houter : outer < store.frames.size) :
    (store.enclose outer).Closed := by
  apply h.push
  . rintro _ ⟨⟩
    exact houter
  . nofun

theorem define (h : store.Closed) (hscope : scope < store.frames.size) (name : String)
    (hvalue : value.Within store.frames.size) :
    (store.define scope name value).Closed := by
  constructor
  . exact h.nested.define scope name value
  . intro other asked bound hbound
    rw [size_frames_define]
    by_cases hother : other = scope
    . subst hother
      rw [own?_define hscope] at hbound
      split at hbound
      . cases hbound
        exact hvalue
      . exact h.within hbound
    . rw [own?_define_of_ne hother] at hbound
      exact h.within hbound

theorem within_of_lookup? (h : store.Closed) (hvalue : store.lookup? scope name = some value) :
    value.Within store.frames.size := by
  induction scope using Nat.strong_induction_on with
  | _ scope ih =>
    rw [lookup?_eq, Option.or_eq_some_iff] at hvalue
    obtain hown | ⟨_, hvalue⟩ := hvalue
    . exact h.within hown
    . split at hvalue
      . cases hvalue
      . next outer houter =>
        have hlt := h.nested houter
        rw [if_pos hlt] at hvalue
        exact ih outer hlt hvalue

end Closed

end Store

end ChatLisp
