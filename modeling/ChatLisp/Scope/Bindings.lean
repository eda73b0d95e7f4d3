import ChatLisp.Expr.Basic

/-!
This module contains the bindings of one scope: an association of names with values in which every
name that was set stands once, in the order of its first setting.
-/

namespace ChatLisp

abbrev Bindings := List (String × Expr)

namespace Bindings

def get? (name : String) : Bindings → Option Expr
  | [] => none
  | (other, value) :: rest => if other = name then some value else get? name rest

def set (name : String) (value : Expr) : Bindings → Bindings
  | [] => [(name, value)]
  | (other, old) :: rest =>
    if other = name then (other, value) :: rest else (other, old) :: set name value rest

def names (bindings : Bindings) : List String :=
  bindings.map Prod.fst

theorem get?_set (name other : String) (value : Expr) (bindings : Bindings) :
    (bindings.set name value).get? other =
      if other = name then some value else bindings.get? other := by
  induction bindings with
  | nil => simp [set, get?, eq_comm]
  | cons binding rest ih =>
    obtain ⟨key, old⟩ := binding
    by_cases hkey : key = name
    . subst hkey
      by_cases hother : key = other
      . simp [set, get?, hother]
      . have hne : other ≠ key := fun h => hother h.symm
        simp [set, get?, hother, hne]
    . by_cases hother : key = other
      . subst hother
        simp [set, get?, hkey]
      . simp [set, get?, hkey, hother, ih]

@[simp]
theorem get?_set_self (name : String) (value : Expr) (bindings : Bindings) :
    (bindings.set name value).get? name = some value := by
  simp [get?_set]

theorem mem_names_iff {name : String} {bindings : Bindings} :
    name ∈ bindings.names ↔ (bindings.get? name).isSome := by
  induction bindings with
  | nil => simp [names, get?]
  | cons binding rest ih =>
    obtain ⟨key, value⟩ := binding
    by_cases hkey : key = name
    . simp [names, get?, hkey]
    . have hne : name ≠ key := fun h => hkey h.symm
      simpa [names, get?, hkey, hne] using ih

end Bindings

end ChatLisp
