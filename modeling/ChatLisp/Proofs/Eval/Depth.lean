import ChatLisp.Eval.Basic

/-!
This module contains the role of the depth that evaluations are granted. It decides whether an
evaluation finishes, and nothing else: one that finishes does the same at every greater depth.
-/

namespace ChatLisp

/--
What can be seen of the end of a computation: the printed value or the message of the error. There
is nothing to be seen if it does not end.
-/
def Outcome.answer? {ε : Type} (message : ε → String) :
    Outcome ε Expr → Option (Except String String)
  | .value a => some (.ok a.print)
  | .error e => some (.error (message e))
  | .outOfFuel => none

namespace StoreM

variable {ε α β : Type}

/--
Wherever the first action does not give up, the second one does the same.
-/
def RefinedBy (action action' : StoreM ε α) : Prop :=
  ∀ store, (action store).outcome = .outOfFuel ∨ action' store = action store

theorem RefinedBy.refl (action : StoreM ε α) : action.RefinedBy action := by
  intro store
  exact .inr rfl

theorem RefinedBy.trans {action action' action'' : StoreM ε α} (h : action.RefinedBy action')
    (h' : action'.RefinedBy action'') :
    action.RefinedBy action'' := by
  intro store
  obtain hend | hsame := h store
  . exact .inl hend
  . rw [← hsame]
    exact h' store

theorem RefinedBy.bind {action action' : StoreM ε α} {f f' : α → StoreM ε β}
    (haction : action.RefinedBy action') (hf : ∀ a, (f a).RefinedBy (f' a)) :
    (action >>= f).RefinedBy (action' >>= f') := by
  intro store
  obtain hend | hsame := haction store
  . left
    rw [outcome_bind, hend]
  . cases hrun : action store with
    | mk outcome after events =>
      rw [hrun] at hsame
      cases outcome with
      | value a =>
        obtain hend | hnext := hf a after
        . left
          rw [outcome_bind, hrun]
          exact hend
        . right
          change action'.bind f' store = action.bind f store
          simp only [StoreM.bind, hrun, hsame, hnext]
      | error e =>
        right
        change action'.bind f' store = action.bind f store
        simp only [StoreM.bind, hrun, hsame]
      | outOfFuel =>
        left
        rw [outcome_bind, hrun]

theorem RefinedBy.bind_right (action : StoreM ε α) {f f' : α → StoreM ε β}
    (hf : ∀ a, (f a).RefinedBy (f' a)) :
    (action >>= f).RefinedBy (action >>= f') :=
  (RefinedBy.refl action).bind hf

theorem RefinedBy.mapError {ε' : Type} {action action' : StoreM ε α}
    (haction : action.RefinedBy action') (f : ε → ε') :
    (action.mapError f).RefinedBy (action'.mapError f) := by
  intro store
  obtain hend | hsame := haction store
  . left
    rw [outcome_mapError, hend]
  . right
    simp only [StoreM.mapError, hsame]

theorem RefinedBy.eq_of_ne {action action' : StoreM ε α} (h : action.RefinedBy action')
    {store : Store} (hne : (action store).outcome ≠ .outOfFuel) :
    action' store = action store :=
  (h store).resolve_left hne

end StoreM

namespace Eval

open StoreM

section

variable {evaluator evaluator' : Evaluator}
  (heval : ∀ e scope, (evaluator e scope).RefinedBy (evaluator' e scope))

include heval

theorem refinedBy_all (scope : ScopeId) (exprs : List Expr) :
    (Eval.all evaluator scope exprs).RefinedBy (Eval.all evaluator' scope exprs) := by
  induction exprs with
  | nil => apply RefinedBy.refl
  | cons e exprs ih =>
    apply (heval e scope).bind
    intro value
    apply ih.bind
    intro values
    apply RefinedBy.refl

theorem refinedBy_sequence (scope : ScopeId) (exprs : List Expr) :
    (Eval.sequence evaluator scope exprs).RefinedBy (Eval.sequence evaluator' scope exprs) := by
  induction exprs with
  | nil => apply RefinedBy.refl
  | cons e exprs ih =>
    cases exprs with
    | nil => exact heval e scope
    | cons next exprs =>
      apply (heval e scope).bind
      intro _
      exact ih

theorem refinedBy_setq (operands : Expr) (scope : ScopeId) :
    (Eval.setq evaluator operands scope).RefinedBy (Eval.setq evaluator' operands scope) := by
  unfold Eval.setq
  split
  . apply (heval _ scope).bind
    intro value
    apply RefinedBy.refl
  . apply RefinedBy.refl
  . apply RefinedBy.refl

theorem refinedBy_runBody (captured : ScopeId) (params : List String) (body : Expr)
    (values : List Expr) :
    (Eval.runBody evaluator captured params body values).RefinedBy
      (Eval.runBody evaluator' captured params body values) := by
  unfold Eval.runBody
  apply RefinedBy.bind_right
  intro frame
  apply RefinedBy.bind_right
  intro _
  apply RefinedBy.bind_right
  intro _
  apply heval

theorem refinedBy_apply (callable args : Expr) (scope : ScopeId) :
    (Eval.apply evaluator callable args scope).RefinedBy
      (Eval.apply evaluator' callable args scope) := by
  unfold Eval.apply
  split
  . apply RefinedBy.refl
  . next items _ =>
    have hall := refinedBy_all heval scope items
    split
    . unfold Eval.applyNative
      apply RefinedBy.bind_right
      intro _
      apply hall.bind
      intro values
      apply RefinedBy.refl
    . unfold Eval.applyClosure
      apply RefinedBy.bind_right
      intro _
      apply hall.bind
      intro values
      apply refinedBy_runBody heval
    . apply RefinedBy.refl

theorem refinedBy_callInNewScope (operator args : Expr) (scope : ScopeId) :
    (Eval.callInNewScope evaluator operator args scope).RefinedBy
      (Eval.callInNewScope evaluator' operator args scope) := by
  unfold Eval.callInNewScope
  apply (heval operator scope).bind
  intro callable
  split
  . apply RefinedBy.bind_right
    intro inner
    apply refinedBy_apply heval
  . apply RefinedBy.refl

theorem refinedBy_call (operator operands : Expr) (scope : ScopeId) :
    (Eval.call evaluator operator operands scope).RefinedBy
      (Eval.call evaluator' operator operands scope) := by
  unfold Eval.call
  repeat' split
  . apply RefinedBy.refl
  . apply refinedBy_setq heval
  . apply refinedBy_callInNewScope heval
  . unfold Eval.callInPlace
    apply (heval _ scope).bind
    intro callable
    apply refinedBy_apply heval
  . apply refinedBy_callInNewScope heval

theorem refinedBy_step (e : Expr) (scope : ScopeId) :
    (Eval.step evaluator e scope).RefinedBy (Eval.step evaluator' e scope) := by
  unfold Eval.step
  split
  . apply RefinedBy.refl
  . apply RefinedBy.refl
  . apply refinedBy_sequence heval
  . apply refinedBy_call heval
  . apply RefinedBy.refl

end

theorem refinedBy_evaluate_succ (depth : Nat) (e : Expr) (scope : ScopeId) :
    (evaluate depth e scope).RefinedBy (evaluate (depth + 1) e scope) := by
  induction depth generalizing e scope with
  | zero =>
    intro store
    exact .inl rfl
  | succ depth ih => exact refinedBy_step ih e scope

theorem refinedBy_evaluate {depth more : Nat} (hle : depth ≤ more) (e : Expr) (scope : ScopeId) :
    (evaluate depth e scope).RefinedBy (evaluate more e scope) := by
  induction hle with
  | refl => apply RefinedBy.refl
  | @step more _ ih => exact ih.trans (refinedBy_evaluate_succ more e scope)

/--
An evaluation that finishes does the same at every greater depth.
-/
theorem evaluate_eq_of_le {depth more : Nat} (hle : depth ≤ more) {e : Expr} {scope : ScopeId}
    {store : Store} (h : (evaluate depth e scope store).outcome ≠ .outOfFuel) :
    evaluate more e scope store = evaluate depth e scope store :=
  (refinedBy_evaluate hle e scope).eq_of_ne h

/--
At some depth the evaluation ends, and the answer is what can be seen of its end.
-/
def EndsWith (e : Expr) (scope : ScopeId) (store : Store) (answer : Except String String) : Prop :=
  ∃ depth, (evaluate depth e scope store).outcome.answer? EvalError.message = some answer

theorem endsWith_iff {e : Expr} {scope : ScopeId} {store : Store} {answer : Except String String} :
    EndsWith e scope store answer ↔ ∃ depth, ∀ more ≥ depth,
      (evaluate more e scope store).outcome.answer? EvalError.message = some answer := by
  constructor
  . rintro ⟨depth, hanswer⟩
    refine ⟨depth, ?_⟩
    intro more hle
    rw [evaluate_eq_of_le hle, hanswer]
    intro hend
    simp [hend, Outcome.answer?] at hanswer
  . rintro ⟨depth, hanswer⟩
    exact ⟨depth, hanswer depth (Nat.le_refl depth)⟩

theorem EndsWith.unique {e : Expr} {scope : ScopeId} {store : Store}
    {answer answer' : Except String String} (h : EndsWith e scope store answer)
    (h' : EndsWith e scope store answer') :
    answer = answer' := by
  obtain ⟨depth, hanswer⟩ := endsWith_iff.mp h
  obtain ⟨depth', hanswer'⟩ := endsWith_iff.mp h'
  have hle := hanswer _ (Nat.le_max_left depth depth')
  rw [hanswer' _ (Nat.le_max_right depth depth')] at hle
  exact (Option.some.inj hle).symm

theorem EndsWith.of_answer?_eq {e e' : Expr} {scope : ScopeId} {store : Store}
    {answer : Except String String} (least : Nat)
    (heq : ∀ depth, (evaluate (depth + least) e scope store).outcome.answer? EvalError.message =
      (evaluate (depth + least) e' scope store).outcome.answer? EvalError.message)
    (h : EndsWith e scope store answer) :
    EndsWith e' scope store answer := by
  obtain ⟨depth, hanswer⟩ := endsWith_iff.mp h
  refine ⟨depth + least, ?_⟩
  rw [← heq]
  exact hanswer _ (Nat.le_add_right depth least)

end Eval

end ChatLisp
