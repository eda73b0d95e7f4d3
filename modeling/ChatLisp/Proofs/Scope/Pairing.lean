import ChatLisp.Proofs.Expr.Likeness
import ChatLisp.Proofs.Scope.Assignment

/-!
This module contains stores that are paired with each other: some of the scopes of one store play
the part of scopes of the other, and the same names have like values in them. Each of the two stores
may hold other scopes that nothing in these leads to.
-/

namespace ChatLisp

theorem Bindings.mem_of_get? {bindings : Bindings} {name : String} {value : Expr}
    (h : bindings.get? name = some value) :
    (name, value) ∈ bindings := by
  induction bindings with
  | nil => cases h
  | cons binding rest ih =>
    obtain ⟨other, bound⟩ := binding
    rw [Bindings.get?] at h
    split at h
    . next heq =>
      cases h
      rw [heq]
      exact List.mem_cons_self
    . exact List.mem_cons_of_mem _ (ih h)

theorem optionRel_imp {α β : Type} {R S : α → β → Prop} (himp : ∀ a b, R a b → S a b)
    {x : Option α} {y : Option β} (h : Option.Rel R x y) :
    Option.Rel S x y := by
  cases h with
  | some hrel => exact .some (himp _ _ hrel)
  | none => exact .none

namespace Store

variable {store : Store} {scope : ScopeId}

/--
The scope around a scope, if there is one.
-/
def outer? (store : Store) (scope : ScopeId) : Option ScopeId :=
  store.frames[scope]?.bind Frame.outer

theorem lt_size_of_outer? {outer : ScopeId} (h : store.outer? scope = some outer) :
    scope < store.frames.size := by
  obtain ⟨frame, hframe, _⟩ := Option.bind_eq_some_iff.mp h
  exact (Array.getElem?_eq_some_iff.mp hframe).1

theorem lt_size_of_lookup? {name : String} {value : Expr}
    (h : store.lookup? scope name = some value) :
    scope < store.frames.size := by
  rw [lookup?, chain] at h
  split at h
  . cases h
  . next frame hframe => exact (Array.getElem?_eq_some_iff.mp hframe).1

theorem lookup?_eq (store : Store) (scope : ScopeId) (name : String) :
    store.lookup? scope name =
      (store.own? scope name).or
        (match store.outer? scope with
        | none => none
        | some outer => if outer < scope then store.lookup? outer name else none) := by
  rw [lookup?, chain, own?, outer?]
  cases hframe : store.frames[scope]? with
  | none => rfl
  | some frame =>
    cases houter : frame.outer with
    | none => simp [houter]
    | some outer =>
      by_cases hlt : outer < scope
      . simp [houter, hlt, lookup?, List.findSome?_cons]
        cases frame.bindings.get? name <;> rfl
      . simp [houter, hlt]

theorem own?_define_of_ne {other : ScopeId} (h : other ≠ scope) (name asked : String)
    (value : Expr) :
    (store.define scope name value).own? other asked = store.own? other asked := by
  rw [own?, own?, getElem?_frames_define, if_neg h]

theorem outer?_define (store : Store) (scope other : ScopeId) (name : String) (value : Expr) :
    (store.define scope name value).outer? other = store.outer? other := by
  rw [outer?, outer?, getElem?_frames_define]
  split
  . cases store.frames[other]? <;> rfl
  . rfl

theorem own?_enclose (outer : ScopeId) (h : scope < store.frames.size) (name : String) :
    (store.enclose outer).own? scope name = store.own? scope name := by
  rw [own?, own?, getElem?_frames_enclose h]

theorem outer?_enclose (outer : ScopeId) (h : scope < store.frames.size) :
    (store.enclose outer).outer? scope = store.outer? scope := by
  rw [outer?, outer?, getElem?_frames_enclose h]

theorem own?_enclose_nextScope (store : Store) (outer : ScopeId) (name : String) :
    (store.enclose outer).own? store.nextScope name = none := by
  simp [own?, enclose, push, nextScope, Bindings.get?]

theorem outer?_enclose_nextScope (store : Store) (outer : ScopeId) :
    (store.enclose outer).outer? store.nextScope = some outer := by
  simp [outer?, enclose, push, nextScope]

theorem SameFrames.outer?_eq {before after : Store} (h : before.SameFrames after)
    (hscope : scope < before.frames.size) :
    after.outer? scope = before.outer? scope := by
  rw [outer?, outer?, h.frame_eq scope hscope]

theorem SameFrames.lookup?_eq {before after : Store} (h : before.SameFrames after)
    (hscope : scope < before.frames.size) (name : String) :
    after.lookup? scope name = before.lookup? scope name := by
  induction scope using Nat.strong_induction_on with
  | _ scope ih =>
    rw [Store.lookup?_eq, h.own?_eq hscope, h.outer?_eq hscope, Store.lookup?_eq before]
    cases before.outer? scope with
    | none => rfl
    | some around =>
      by_cases hlt : around < scope
      . simp only [if_pos hlt, ih around hlt (hlt.trans hscope)]
      . simp only [if_neg hlt]

theorem sameFrames_enclose (store : Store) (outer : ScopeId) :
    store.SameFrames (store.enclose outer) :=
  (SameOutside.refl _ _).sameFrames_of_enclose

theorem lookup?_enclose (outer : ScopeId) (h : scope < store.frames.size) (name : String) :
    (store.enclose outer).lookup? scope name = store.lookup? scope name :=
  (store.sameFrames_enclose outer).lookup?_eq h name

theorem lookup?_enclose_nextScope (h : scope < store.frames.size) (name : String) :
    (store.enclose scope).lookup? store.nextScope name = store.lookup? scope name := by
  rw [lookup?_eq, own?_enclose_nextScope, outer?_enclose_nextScope, Option.none_or]
  exact (if_pos h).trans (lookup?_enclose scope h name)

theorem lookup?_enclose_twice (h : scope < store.frames.size) (name : String) :
    ((store.enclose scope).enclose store.nextScope).lookup? (store.enclose scope).nextScope name =
      store.lookup? scope name := by
  have hlt : store.nextScope < (store.enclose scope).frames.size := by
    rw [size_frames_enclose]
    exact Nat.lt_succ_self _
  rw [lookup?_enclose_nextScope hlt, lookup?_enclose_nextScope h]

/--
The scope is a new global one: it binds what every program starts with, and it lies in no other.
-/
def IsGlobal (store : Store) (scope : ScopeId) : Prop :=
  store.frames[scope]? = some ⟨none, globalBindings⟩

theorem IsGlobal.lt_size (h : store.IsGlobal scope) :
    scope < store.frames.size :=
  (Array.getElem?_eq_some_iff.mp h).1

theorem isGlobal_addGlobal (store : Store) : store.addGlobal.IsGlobal store.nextScope := by
  simp [IsGlobal, addGlobal, push, nextScope]

theorem IsGlobal.addGlobal (h : store.IsGlobal scope) :
    store.addGlobal.IsGlobal scope := by
  rw [IsGlobal, Store.addGlobal, push, Array.getElem?_push_lt h.lt_size]
  rw [← Array.getElem?_eq_getElem h.lt_size]
  exact h

end Store

/--
Which scopes of a second store play the part of which scopes of a first one.
-/
structure Pairing where
  /-- The names that are looked up. What other names mean in the two stores does not matter. -/
  names : Set String
  /-- Scopes of the second store that play no part and never will. -/
  foreign : Set ScopeId
  /-- The scopes play the same part, so what is defined in one is defined in the other. -/
  twin : ScopeId → ScopeId → Prop
  /-- The names mean the same in both scopes. -/
  link : ScopeId → ScopeId → Prop
  link_of_twin : ∀ {scope scope'}, twin scope scope' → link scope scope'
  left_unique : ∀ {scope other scope'}, twin scope scope' → twin other scope' → scope = other
  right_unique : ∀ {scope scope' other'}, twin scope scope' → twin scope other' → scope' = other'
  not_foreign : ∀ {scope scope'}, twin scope scope' → scope' ∉ foreign

namespace Pairing

variable {p q r : Pairing} {scope scope' : ScopeId} {e e' : Expr}

/--
Expressions that mean the same in stores that are paired in this way.
-/
abbrev Alike (p : Pairing) : Expr → Expr → Prop :=
  Expr.Alike p.names p.link

/--
Another pairing for the same purpose, of more scopes.
-/
structure Extends (p q : Pairing) : Prop where
  names_eq : q.names = p.names
  foreign_eq : q.foreign = p.foreign
  twin : ∀ {scope scope'}, p.twin scope scope' → q.twin scope scope'
  link : ∀ {scope scope'}, p.link scope scope' → q.link scope scope'

theorem Extends.refl (p : Pairing) : p.Extends p :=
  ⟨rfl, rfl, id, id⟩

theorem Extends.trans (hpq : p.Extends q) (hqr : q.Extends r) : p.Extends r where
  names_eq := hqr.names_eq.trans hpq.names_eq
  foreign_eq := hqr.foreign_eq.trans hpq.foreign_eq
  twin := fun h => hqr.twin (hpq.twin h)
  link := fun h => hqr.link (hpq.link h)

theorem Extends.alike (hpq : p.Extends q) (h : p.Alike e e') : q.Alike e e' := by
  rw [Alike, hpq.names_eq]
  exact h.mono fun _ _ => hpq.link

/--
The pairing of a single scope with a single scope.
-/
def single (names : Set String) (foreign : Set ScopeId) (scope scope' : ScopeId)
    (h : scope' ∉ foreign) : Pairing where
  names := names
  foreign := foreign
  twin a b := a = scope ∧ b = scope'
  link a b := a = scope ∧ b = scope'
  link_of_twin := id
  left_unique := by
    rintro _ _ _ ⟨rfl, _⟩ ⟨rfl, _⟩
    rfl
  right_unique := by
    rintro _ _ _ ⟨_, rfl⟩ ⟨_, rfl⟩
    rfl
  not_foreign := by
    rintro _ _ ⟨_, rfl⟩
    exact h

/--
The pairing with one more pair of scopes that play the same part.
-/
def add (p : Pairing) (scope scope' : ScopeId) (hleft : ∀ b, ¬ p.twin scope b)
    (hright : ∀ a, ¬ p.twin a scope') (hforeign : scope' ∉ p.foreign) : Pairing where
  names := p.names
  foreign := p.foreign
  twin a b := p.twin a b ∨ a = scope ∧ b = scope'
  link a b := p.link a b ∨ a = scope ∧ b = scope'
  link_of_twin := Or.imp_left p.link_of_twin
  left_unique := by
    rintro a b c (hac | ⟨rfl, rfl⟩) (hbc | ⟨rfl, hc⟩)
    . exact p.left_unique hac hbc
    . subst hc
      exact absurd hac (hright a)
    . exact absurd hbc (hright b)
    . rfl
  right_unique := by
    rintro a b c (hab | ⟨rfl, rfl⟩) (hac | ⟨ha, rfl⟩)
    . exact p.right_unique hab hac
    . subst ha
      exact absurd hab (hleft b)
    . exact absurd hac (hleft c)
    . rfl
  not_foreign := by
    rintro a b (hab | ⟨_, rfl⟩)
    . exact p.not_foreign hab
    . exact hforeign

end Pairing

namespace Store

/--
The stores are paired: twins bind the names to like values, and linked scopes are twins too, or else
the first of them is an empty scope inside one that is linked in its place.
-/
structure Paired (p : Pairing) (store store' : Store) : Prop where
  foreign_lt : ∀ scope ∈ p.foreign, scope < store'.frames.size
  twin_lt : ∀ {scope scope'}, p.twin scope scope' →
    scope < store.frames.size ∧ scope' < store'.frames.size
  own : ∀ {scope scope'}, p.twin scope scope' → ∀ name ∈ p.names,
    Option.Rel p.Alike (store.own? scope name) (store'.own? scope' name)
  outer : ∀ {scope scope'}, p.twin scope scope' →
    Option.Rel (fun outer outer' => outer < scope ∧ outer' < scope' ∧ p.link outer outer')
      (store.outer? scope) (store'.outer? scope')
  link : ∀ {scope scope'}, p.link scope scope' → p.twin scope scope' ∨
    (∀ b, ¬ p.twin scope b) ∧ (∀ name, store.own? scope name = none) ∧
      ∃ outer < scope, store.outer? scope = some outer ∧ p.link outer scope'

namespace Paired

variable {p q : Pairing} {store store' : Store} {scope scope' : ScopeId} {name : String}

theorem link_lt (h : store.Paired p store') (hlink : p.link scope scope') :
    scope < store.frames.size ∧ scope' < store'.frames.size := by
  induction scope using Nat.strong_induction_on with
  | _ scope ih =>
    obtain htwin | ⟨_, _, outer, hlt, houter, hlink⟩ := h.link hlink
    . exact h.twin_lt htwin
    . exact ⟨lt_size_of_outer? houter, (ih outer hlt hlink).2⟩

theorem lookup? (h : store.Paired p store') (hlink : p.link scope scope') (hname : name ∈ p.names) :
    Option.Rel p.Alike (store.lookup? scope name) (store'.lookup? scope' name) := by
  -- The first scope gets smaller in any case, the second one stays where an empty scope is left.
  induction scope using Nat.strong_induction_on generalizing scope' with
  | _ scope ih =>
    obtain htwin | ⟨_, hempty, outer, hlt, houter, hlink⟩ := h.link hlink
    . rw [lookup?_eq store, lookup?_eq store']
      have hown := h.own htwin name hname
      have houter := h.outer htwin
      generalize store.own? scope name = value, store'.own? scope' name = value' at hown
      generalize store.outer? scope = outer, store'.outer? scope' = outer' at houter
      cases hown with
      | some hvalue => exact .some hvalue
      | none =>
        cases houter with
        | none => exact .none
        | some houter =>
          obtain ⟨hlt, hlt', hlink⟩ := houter
          rw [Option.none_or, Option.none_or]
          simp only [if_pos hlt, if_pos hlt']
          exact ih _ hlt hlink
    . rw [lookup?_eq store, hempty, houter, Option.none_or]
      simp only [if_pos hlt]
      exact ih outer hlt hlink

theorem count (h : store.Paired p store') (closures closures' : Nat) :
    { store with closures := closures }.Paired p { store' with closures := closures' } :=
  ⟨h.foreign_lt, h.twin_lt, h.own, h.outer, h.link⟩

theorem define (h : store.Paired p store') (htwin : p.twin scope scope') (name : String)
    {value value' : Expr} (hvalue : p.Alike value value') :
    (store.define scope name value).Paired p (store'.define scope' name value') := by
  obtain ⟨hlt, hlt'⟩ := h.twin_lt htwin
  constructor
  . simpa using h.foreign_lt
  . intro other other' hother
    simpa using h.twin_lt hother
  . intro other other' hother asked hasked
    by_cases hscope : other = scope
    . subst hscope
      obtain rfl := p.right_unique htwin hother
      rw [own?_define hlt, own?_define hlt']
      split
      . exact .some hvalue
      . exact h.own htwin asked hasked
    . have hscope' : other' ≠ scope' := by
        rintro rfl
        exact hscope (p.left_unique hother htwin)
      rw [own?_define_of_ne hscope, own?_define_of_ne hscope']
      exact h.own hother asked hasked
  . intro other other' hother
    rw [outer?_define, outer?_define]
    exact h.outer hother
  . intro other other' hother
    -- A scope that is no twin is not the one that gets the definition.
    refine (h.link hother).imp_right ?_
    rintro ⟨hnone, hempty, houter⟩
    refine ⟨hnone, ?_, ?_⟩
    . intro asked
      rw [own?_define_of_ne]
      . exact hempty asked
      . rintro rfl
        exact hnone _ htwin
    . simpa only [outer?_define] using houter

theorem enclose (h : store.Paired p store') (hlink : p.link scope scope') :
    ∃ q, p.Extends q ∧ (store.enclose scope).Paired q (store'.enclose scope') ∧
      q.twin store.nextScope store'.nextScope := by
  -- The number of a new scope belongs to no scope that is paired already.
  have hleft : ∀ b, ¬ p.twin store.nextScope b := by
    intro b htwin
    exact absurd (h.twin_lt htwin).1 (Nat.lt_irrefl _)
  have hright : ∀ a, ¬ p.twin a store'.nextScope := by
    intro a htwin
    exact absurd (h.twin_lt htwin).2 (Nat.lt_irrefl _)
  have hforeign : store'.nextScope ∉ p.foreign := by
    intro hmem
    exact absurd (h.foreign_lt _ hmem) (Nat.lt_irrefl _)
  have hlt := h.link_lt hlink
  let q := p.add store.nextScope store'.nextScope hleft hright hforeign
  have hpq : p.Extends q := ⟨rfl, rfl, .inl, .inl⟩
  refine ⟨q, hpq, ?_, .inr ⟨rfl, rfl⟩⟩
  constructor
  . intro scope hmem
    rw [size_frames_enclose]
    exact Nat.lt_succ_of_lt (h.foreign_lt scope hmem)
  . rintro a b (hab | ⟨rfl, rfl⟩)
    . have hlt := h.twin_lt hab
      rw [size_frames_enclose, size_frames_enclose]
      exact ⟨Nat.lt_succ_of_lt hlt.1, Nat.lt_succ_of_lt hlt.2⟩
    . simp [nextScope]
  . rintro a b (hab | ⟨rfl, rfl⟩) name hname
    . have hlt := h.twin_lt hab
      rw [own?_enclose _ hlt.1, own?_enclose _ hlt.2]
      exact optionRel_imp (fun _ _ => hpq.alike) (h.own hab name hname)
    . rw [own?_enclose_nextScope, own?_enclose_nextScope]
      exact .none
  . rintro a b (hab | ⟨rfl, rfl⟩)
    . have hlt := h.twin_lt hab
      rw [outer?_enclose _ hlt.1, outer?_enclose _ hlt.2]
      exact optionRel_imp (fun _ _ => And.imp_right (And.imp_right hpq.link)) (h.outer hab)
    . rw [outer?_enclose_nextScope, outer?_enclose_nextScope]
      exact .some ⟨hlt.1, hlt.2, hpq.link hlink⟩
  . rintro a b (hab | ⟨rfl, rfl⟩)
    . have hlt := h.link_lt hab
      refine (h.link hab).imp .inl ?_
      rintro ⟨hnone, hempty, outer, houter_lt, houter, hlink⟩
      refine ⟨?_, ?_, outer, houter_lt, ?_, .inl hlink⟩
      . rintro c (hac | ⟨rfl, _⟩)
        . exact hnone c hac
        . exact absurd hlt.1 (Nat.lt_irrefl _)
      . intro name
        rw [own?_enclose _ hlt.1, hempty]
      . rw [outer?_enclose _ hlt.1, houter]
    . exact .inl (.inr ⟨rfl, rfl⟩)

/--
The second store may change wherever no name is looked up.
-/
theorem of_change {after : Store} (h : store.Paired p store')
    (hsize : store'.frames.size ≤ after.frames.size)
    (hown : ∀ scope scope', p.twin scope scope' → ∀ name ∈ p.names,
      after.own? scope' name = store'.own? scope' name)
    (houter : ∀ scope < store'.frames.size, after.outer? scope = store'.outer? scope) :
    store.Paired p after := by
  constructor
  . intro scope hmem
    exact Nat.lt_of_lt_of_le (h.foreign_lt scope hmem) hsize
  . intro a b hab
    have hlt := h.twin_lt hab
    exact ⟨hlt.1, Nat.lt_of_lt_of_le hlt.2 hsize⟩
  . intro a b hab name hname
    rw [hown a b hab name hname]
    exact h.own hab name hname
  . intro a b hab
    rw [houter b (h.twin_lt hab).2]
    exact h.outer hab
  . exact h.link

theorem single_global (names : Set String) {foreign : Set ScopeId} (hforeign : scope' ∉ foreign)
    (hscope : store.IsGlobal scope) (hscope' : store'.IsGlobal scope')
    (hlt : ∀ other ∈ foreign, other < store'.frames.size) :
    store.Paired (.single names foreign scope scope' hforeign) store' := by
  constructor
  . exact hlt
  . rintro _ _ ⟨rfl, rfl⟩
    exact ⟨hscope.lt_size, hscope'.lt_size⟩
  . rintro _ _ ⟨rfl, rfl⟩ name _
    rw [own?, own?, hscope, hscope', Option.bind_some]
    cases hvalue : globalBindings.get? name with
    | none => exact .none
    | some value =>
      apply Option.Rel.some
      have hmem := Bindings.mem_of_get? hvalue
      simp only [globalBindings, natives, List.map_cons, List.map_nil, List.mem_cons, Prod.mk.injEq,
        List.not_mem_nil, or_false] at hmem
      -- No global value holds a closure, so each of them is like itself.
      rcases hmem with ⟨_, rfl⟩ | ⟨_, rfl⟩ | ⟨_, rfl⟩ | ⟨_, rfl⟩ | ⟨_, rfl⟩ | ⟨_, rfl⟩ | ⟨_, rfl⟩
      all_goals constructor
  . rintro _ _ ⟨rfl, rfl⟩
    rw [outer?, outer?, hscope, hscope']
    exact .none
  . exact .inl

end Paired

end Store

end ChatLisp
