import ChatLisp.Proofs.Scope.Closed

/-!
This module contains what can be seen of a definition from each scope. Lookup and the collection of
names take the same way outwards, so a definition changes what a name means in exactly those scopes
whose way comes to it before it comes to another definition of the name.
-/

namespace ChatLisp

namespace Store

variable {store : Store} {scope holder : ScopeId} {scopes : List ScopeId} {name : String}
  {value : Expr}

/--
The stores that come from adding scopes and from defining names, in any order and any number of
times.
-/
inductive Built : Store → Prop
  | empty : Built Store.empty
  | addRoot {store : Store} : Built store → Built store.addRoot
  | addGlobal {store : Store} : Built store → Built store.addGlobal
  | enclose {store : Store} {outer : ScopeId} :
    Built store → outer < store.frames.size → Built (store.enclose outer)
  | define {store : Store} (scope : ScopeId) (name : String) (value : Expr) :
    Built store → Built (store.define scope name value)

theorem Built.nested (h : store.Built) : store.Nested := by
  induction h with
  | empty => exact closed_empty.nested
  | addRoot _ ih =>
    apply ih.push
    nofun
  | addGlobal _ ih =>
    apply ih.push
    nofun
  | enclose _ houter ih =>
    apply ih.push
    rintro _ ⟨⟩
    exact houter
  | define scope name value _ ih => exact ih.define scope name value

/--
The scopes on the way from a scope outwards, up to and including a root.
-/
inductive Way (store : Store) : ScopeId → List ScopeId → Prop
  | root {scope : ScopeId} :
    scope < store.frames.size → store.outer? scope = none → Way store scope [scope]
  | inner {scope outer : ScopeId} {scopes : List ScopeId} :
    store.outer? scope = some outer → Way store outer scopes → Way store scope (scope :: scopes)

/--
The scope is on the way, and no scope that comes before it on the way binds the name.
-/
def Exposes (store : Store) (scopes : List ScopeId) (holder : ScopeId) (name : String) : Prop :=
  ∃ nearer farther, scopes = nearer ++ holder :: farther ∧
    ∀ scope ∈ nearer, store.own? scope name = none

theorem Nested.exists_way (h : store.Nested) (hscope : scope < store.frames.size) :
    ∃ scopes, store.Way scope scopes := by
  induction scope using Nat.strong_induction_on with
  | _ scope ih =>
    cases houter : store.outer? scope with
    | none => exact ⟨_, .root hscope houter⟩
    | some outer =>
      have hlt : outer < scope := h houter
      obtain ⟨scopes, hway⟩ := ih outer hlt (hlt.trans hscope)
      exact ⟨_, .inner houter hway⟩

namespace Way

theorem lt_size (hway : store.Way scope scopes) : ∀ other ∈ scopes, other < store.frames.size := by
  induction hway with
  | root hscope _ => exact List.forall_mem_singleton.mpr hscope
  | inner houter _ ih => exact List.forall_mem_cons.mpr ⟨lt_size_of_outer? houter, ih⟩

theorem define (hway : store.Way scope scopes) (holder : ScopeId) (name : String) (value : Expr) :
    (store.define holder name value).Way scope scopes := by
  induction hway with
  | root hscope houter =>
    apply root
    . rwa [size_frames_define]
    . rwa [outer?_define]
  | inner houter _ ih =>
    apply inner _ ih
    rwa [outer?_define]

theorem lookup?_eq (hway : store.Way scope scopes) (h : store.Nested) (name : String) :
    store.lookup? scope name = scopes.findSome? fun holder => store.own? holder name := by
  induction hway with
  | @root scope _ houter =>
    rw [Store.lookup?_eq, houter, Option.or_none, List.findSome?_singleton]
  | @inner scope outer scopes houter _ ih =>
    rw [Store.lookup?_eq, houter, List.findSome?_cons, ← ih]
    dsimp only
    rw [if_pos (h houter)]
    cases store.own? scope name <;> rfl

theorem mem_names_iff (hway : store.Way scope scopes) (h : store.Nested) :
    name ∈ store.names scope ↔ ∃ holder ∈ scopes, (store.own? holder name).isSome := by
  rw [Store.mem_names_iff, hway.lookup?_eq h, List.findSome?_isSome_iff]

end Way

theorem exposes_cons {head : ScopeId} :
    store.Exposes (head :: scopes) holder name ↔
      head = holder ∨ store.own? head name = none ∧ store.Exposes scopes holder name := by
  constructor
  . rintro ⟨nearer, farther, hscopes, hnearer⟩
    cases nearer with
    | nil => exact .inl (List.cons.inj hscopes).1
    | cons first nearer =>
      obtain ⟨rfl, rfl⟩ := List.cons.inj hscopes
      obtain ⟨hfirst, hnearer⟩ := List.forall_mem_cons.mp hnearer
      exact .inr ⟨hfirst, nearer, farther, rfl, hnearer⟩
  . rintro (rfl | ⟨hhead, nearer, farther, rfl, hnearer⟩)
    . exact ⟨[], scopes, rfl, List.forall_mem_nil _⟩
    . exact ⟨head :: nearer, farther, rfl, List.forall_mem_cons.mpr ⟨hhead, hnearer⟩⟩

theorem own?_define_of_ne_name {asked : String} (h : asked ≠ name) (holder other : ScopeId)
    (value : Expr) :
    (store.define holder name value).own? other asked = store.own? other asked := by
  rw [own?, own?, getElem?_frames_define]
  split
  . cases store.frames[other]? with
    | none => rfl
    | some frame => exact (Bindings.get?_set ..).trans (if_neg h)
  . rfl

theorem findSome?_define_of_exposes (hlt : ∀ other ∈ scopes, other < store.frames.size)
    (h : store.Exposes scopes holder name) (value : Expr) :
    (scopes.findSome? fun other => (store.define holder name value).own? other name) =
      some value := by
  induction scopes with
  | nil =>
    obtain ⟨nearer, farther, hscopes, _⟩ := h
    simp at hscopes
  | cons head scopes ih =>
    obtain ⟨hhead, hlt⟩ := List.forall_mem_cons.mp hlt
    rw [List.findSome?_cons]
    by_cases heq : head = holder
    . subst heq
      rw [own?_define hhead, if_pos rfl]
    . obtain heq' | ⟨hnone, h⟩ := exposes_cons.mp h
      . exact absurd heq' heq
      . rw [own?_define_of_ne heq, hnone]
        exact ih hlt h

theorem findSome?_define_of_not_exposes (h : ¬ store.Exposes scopes holder name) (value : Expr) :
    (scopes.findSome? fun other => (store.define holder name value).own? other name) =
      scopes.findSome? fun other => store.own? other name := by
  induction scopes with
  | nil => rfl
  | cons head scopes ih =>
    simp only [exposes_cons, not_or, not_and] at h
    rw [List.findSome?_cons, List.findSome?_cons, own?_define_of_ne h.1]
    cases hown : store.own? head name with
    | none => exact ih (h.2 hown)
    -- The search ends here, and does not get to the definition.
    | some bound => rfl

/--
What can be seen of a definition: a scope has one way outwards, and the definition changes what a
name means there exactly if it is the name that is defined, and if the way comes to the definition
before it comes to another one of the name. The names that are collected on the way are those that
mean something, also after the definition, which leaves a store of the same kind.
-/
theorem definition_visible (h : store.Built) (hscope : scope < store.frames.size) :
    (∃ scopes, store.Way scope scopes) ∧
    ∀ scopes, store.Way scope scopes →
      (∀ holder name value,
        (store.Exposes scopes holder name →
          (store.define holder name value).lookup? scope name = some value) ∧
        ∀ asked, ¬ (asked = name ∧ store.Exposes scopes holder name) →
          (store.define holder name value).lookup? scope asked = store.lookup? scope asked) ∧
      ∀ name, (name ∈ store.names scope ↔ (store.lookup? scope name).isSome) ∧
        (name ∈ store.names scope ↔ ∃ holder ∈ scopes, (store.own? holder name).isSome) := by
  have hnested := h.nested
  refine ⟨hnested.exists_way hscope, ?_⟩
  intro scopes hway
  constructor
  . intro holder name value
    have hnested' : (store.define holder name value).Nested := hnested.define holder name value
    have hway' := hway.define holder name value
    constructor
    . intro hexposes
      rw [hway'.lookup?_eq hnested', findSome?_define_of_exposes hway.lt_size hexposes]
    . intro asked hasked
      rw [hway'.lookup?_eq hnested', hway.lookup?_eq hnested]
      by_cases hname : asked = name
      . subst hname
        exact findSome?_define_of_not_exposes (fun hexposes => hasked ⟨rfl, hexposes⟩) value
      . simp only [own?_define_of_ne_name hname]
  . intro name
    exact ⟨mem_names_iff, hway.mem_names_iff hnested⟩

/--
The global scope 0 binds `x`, and so does scope 2. A definition in scope 1 is seen from its child 4,
but neither from its child 2, which has a binding of its own, nor from its sibling 3.
-/
theorem definition_visible_siblings :
    let tree := ((Store.empty.addGlobal.enclose 0).enclose 1).enclose 0
    let store := ((tree.define 0 "x" (.integer 1)).define 2 "x" (.integer 5)).enclose 1
    let after := store.define 1 "x" .t
    store.Built ∧ store.Way 4 [4, 1, 0] ∧ store.Exposes [4, 1, 0] 1 "x" ∧
      after.lookup? 4 "x" = some .t ∧
      store.Way 2 [2, 1, 0] ∧ (¬ store.Exposes [2, 1, 0] 1 "x") ∧
      after.lookup? 2 "x" = store.lookup? 2 "x" ∧
      store.Way 3 [3, 0] ∧ (¬ store.Exposes [3, 0] 1 "x") ∧
      after.lookup? 3 "x" = store.lookup? 3 "x" := by
  intro tree store after
  have hbuilt : store.Built := by
    apply Built.enclose
    . apply Built.define
      apply Built.define
      exact ((Built.empty.addGlobal.enclose (by decide)).enclose (by decide)).enclose (by decide)
    . decide
  have hroot : store.Way 0 [0] := .root (by decide) rfl
  have hinner : store.Way 1 [1, 0] := .inner rfl hroot
  have hchild : store.Way 4 [4, 1, 0] := .inner rfl hinner
  have hother : store.Way 2 [2, 1, 0] := .inner rfl hinner
  have hsibling : store.Way 3 [3, 0] := .inner rfl hroot
  have hexposed : store.Exposes [4, 1, 0] 1 "x" :=
    ⟨[4], [0], rfl, List.forall_mem_singleton.mpr rfl⟩
  have hshadowed : ¬ store.Exposes [2, 1, 0] 1 "x" := by
    rw [exposes_cons]
    rintro (heq | ⟨hnone, _⟩)
    . exact absurd heq (by decide)
    . cases hnone
  have hoff : ¬ store.Exposes [3, 0] 1 "x" := by
    rintro ⟨nearer, farther, hscopes, _⟩
    have hmem : 1 ∈ [3, 0] := hscopes ▸ List.mem_append_right _ List.mem_cons_self
    simp at hmem
  have hvisible := fun (scope : ScopeId) (hscope : scope < store.frames.size) =>
    (definition_visible hbuilt hscope).2
  exact ⟨hbuilt, hchild, hexposed, ((hvisible 4 (by decide) _ hchild).1 1 "x" .t).1 hexposed,
    hother, hshadowed,
    ((hvisible 2 (by decide) _ hother).1 1 "x" .t).2 "x" fun h => hshadowed h.2,
    hsibling, hoff, ((hvisible 3 (by decide) _ hsibling).1 1 "x" .t).2 "x" fun h => hoff h.2⟩

end Store

end ChatLisp
