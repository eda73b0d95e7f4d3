import ChatLisp.Proofs.Eval.Change

/-!
This module contains the isolation of scopes: an evaluation changes no scope that was there before
it, apart from the one that it takes place in. In particular the body of a closure changes neither
the scope that the closure was made in nor the scope of the call.
-/

namespace ChatLisp

namespace Store

/--
All scopes of `before` are still there, and apart from `scope` each has the bindings and the outer
scope that it had.
-/
structure SameOutside (scope : ScopeId) (before after : Store) : Prop where
  size_le : before.frames.size ≤ after.frames.size
  frame_eq : ∀ other < before.frames.size, other ≠ scope →
    after.frames[other]? = before.frames[other]?

/--
All scopes of `before` are still there, and each has the bindings and the outer scope that it had.
-/
structure SameFrames (before after : Store) : Prop where
  size_le : before.frames.size ≤ after.frames.size
  frame_eq : ∀ other < before.frames.size, after.frames[other]? = before.frames[other]?

/--
A change that respects every choice of the one scope that may change respects all scopes.
-/
theorem SameFrames.of_forall {before after : Store}
    (h : ∀ scope, before.SameOutside scope after) :
    before.SameFrames after := by
  constructor
  . exact (h 0).size_le
  . intro other hother
    -- Any scope but `other` will do.
    apply (h (other + 1)).frame_eq other hother
    omega

theorem SameFrames.sameOutside {before after : Store} (h : before.SameFrames after)
    (scope : ScopeId) :
    before.SameOutside scope after := by
  constructor
  . exact h.size_le
  . intro other hother _
    exact h.frame_eq other hother

theorem SameFrames.refl (store : Store) : store.SameFrames store :=
  ⟨Nat.le_refl _, fun _ _ => rfl⟩

theorem SameFrames.trans {a b c : Store} (hab : a.SameFrames b) (hbc : b.SameFrames c) :
    a.SameFrames c := by
  constructor
  . exact Nat.le_trans hab.size_le hbc.size_le
  . intro other hother
    rw [hbc.frame_eq other (Nat.lt_of_lt_of_le hother hab.size_le), hab.frame_eq other hother]

namespace SameOutside

theorem refl (scope : ScopeId) (store : Store) : store.SameOutside scope store := by
  constructor
  . apply Nat.le_refl
  . intros
    rfl

theorem trans {scope : ScopeId} {a b c : Store} (hab : a.SameOutside scope b)
    (hbc : b.SameOutside scope c) :
    a.SameOutside scope c := by
  constructor
  . exact Nat.le_trans hab.size_le hbc.size_le
  . intro other hother hne
    rw [hbc.frame_eq other (Nat.lt_of_lt_of_le hother hab.size_le) hne]
    rw [hab.frame_eq other hother hne]

theorem define (scope : ScopeId) (store : Store) (name : String) (value : Expr) :
    store.SameOutside scope (store.define scope name value) := by
  constructor
  . simp
  . intro other _ hne
    rw [getElem?_frames_define]
    simp [hne]

theorem sameFrames_of_enclose {store after : Store} {outer : ScopeId}
    (h : (store.enclose outer).SameOutside store.nextScope after) :
    store.SameFrames after := by
  have hsize := h.size_le
  simp only [size_frames_enclose] at hsize
  constructor
  . omega
  . intro other hother
    rw [h.frame_eq other]
    . rw [getElem?_frames_enclose hother]
    . simp only [size_frames_enclose]
      omega
    . simp only [nextScope]
      omega

end SameOutside

end Store

namespace Eval

open Store

theorem change_sameOutside : Change SameOutside where
  refl := SameOutside.refl
  trans _ _ _ _ := SameOutside.trans
  define := SameOutside.define
  count _ _ := ⟨Nat.le_refl _, fun _ _ _ => rfl⟩
  enclose scope _ _ _ h := (SameOutside.sameFrames_of_enclose h).sameOutside scope

/--
Neither an evaluation nor an application changes a scope other than the one that it takes place in,
and the body of a closure changes no scope at all that was there when it was entered.
-/
theorem evaluation_isolated (depth : Nat) (store : Store) :
    (∀ e scope, store.SameOutside scope (evaluate depth e scope store).store) ∧
    (∀ callable args scope,
      store.SameOutside scope (ChatLisp.apply depth callable args scope store).store) ∧
    (∀ captured params body values,
      store.SameFrames (runBody (evaluate depth) captured params body values store).store) := by
  refine ⟨?_, ?_, ?_⟩
  . intro e scope
    apply change_sameOutside.evaluate
  . intro callable args scope
    apply change_sameOutside.apply
    apply change_sameOutside.evaluate
  . intro captured params body values
    apply SameFrames.of_forall
    intro scope
    apply change_sameOutside.runBody
    apply change_sameOutside.evaluate

end Eval

end ChatLisp
