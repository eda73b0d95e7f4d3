import ChatLisp.Eval.Basic

/-!
This module contains the principle by which facts about the store are proved of all evaluations. A
relation between the stores before and after is kept by every evaluation if it is kept by what an
evaluation does in its own scope, and by entering a new scope.
-/

namespace ChatLisp

namespace StoreM

variable {ε α β : Type} {R : Store → Store → Prop}

/--
The action leaves a store that is related to the one it started from, however it ends.
-/
def Changes (action : StoreM ε α) (R : Store → Store → Prop) : Prop :=
  ∀ store, R store (action store).store

theorem changes_bind {action : StoreM ε α} {f : α → StoreM ε β}
    (htrans : ∀ a b c, R a b → R b c → R a c) (haction : action.Changes R)
    (hf : ∀ a, (f a).Changes R) :
    (action >>= f).Changes R := by
  intro store
  rw [store_bind]
  split
  . apply htrans
    . apply haction
    . apply hf
  . apply haction

end StoreM

namespace Eval

open StoreM

/--
`R scope before after` is a relation that may hold between the stores before and after an evaluation
in `scope`.
-/
structure Change (R : ScopeId → Store → Store → Prop) : Prop where
  refl : ∀ scope store, R scope store store
  trans : ∀ scope a b c, R scope a b → R scope b c → R scope a c
  define : ∀ scope store name value, R scope store (store.define scope name value)
  count : ∀ scope store, R scope store { store with closures := store.closures + 1 }
  /-- What happens in a new scope is a change in the current one, wherever the new scope lies. -/
  enclose : ∀ scope outer store after,
    R store.nextScope (store.enclose outer) after → R scope store after

variable {R : ScopeId → Store → Store → Prop} {evaluator : Evaluator}

namespace Change

variable {ε α β : Type}

theorem pure (hR : Change R) (scope : ScopeId) (a : α) :
    (Pure.pure a : StoreM ε α).Changes (R scope) := by
  intro store
  apply hR.refl

theorem fail (hR : Change R) (scope : ScopeId) (e : ε) :
    (StoreM.fail e : StoreM ε α).Changes (R scope) := by
  intro store
  apply hR.refl

theorem report (hR : Change R) (scope : ScopeId) (event : Event) :
    (StoreM.report event : StoreM ε Unit).Changes (R scope) := by
  intro store
  apply hR.refl

theorem bind (hR : Change R) {scope : ScopeId} {action : StoreM ε α} {f : α → StoreM ε β}
    (haction : action.Changes (R scope)) (hf : ∀ a, (f a).Changes (R scope)) :
    (action >>= f).Changes (R scope) :=
  changes_bind (hR.trans scope) haction hf

theorem enclose_bind (hR : Change R) (scope outer : ScopeId) {f : ScopeId → StoreM EvalError α}
    (hf : ∀ inner, (f inner).Changes (R inner)) :
    (Eval.enclose outer >>= f).Changes (R scope) := by
  intro store
  apply hR.enclose scope outer
  apply hf

theorem lookup (hR : Change R) (name : String) (inner scope : ScopeId) :
    (Eval.lookup name inner).Changes (R scope) := by
  unfold Eval.lookup
  apply hR.bind
  . intro store
    apply hR.refl
  . intro value
    split
    . apply hR.pure
    . apply hR.fail

theorem define_name (hR : Change R) (name : String) (value : Expr) (scope : ScopeId) :
    (Eval.define name value scope).Changes (R scope) := by
  unfold Eval.define
  apply hR.bind
  . apply hR.report
  . intro _ store
    apply hR.define

theorem defineAll (hR : Change R) (scope : ScopeId) (bindings : List (String × Expr)) :
    (Eval.defineAll scope bindings).Changes (R scope) := by
  induction bindings with
  | nil => apply hR.pure
  | cons binding bindings ih =>
    apply hR.bind
    . apply hR.define_name
    . intro _
      exact ih

theorem all (hR : Change R) (scope : ScopeId) (exprs : List Expr)
    (heval : ∀ e ∈ exprs, (evaluator e scope).Changes (R scope)) :
    (Eval.all evaluator scope exprs).Changes (R scope) := by
  induction exprs with
  | nil => apply hR.pure
  | cons e exprs ih =>
    simp only [List.mem_cons, forall_eq_or_imp] at heval
    apply hR.bind heval.1
    intro value
    apply hR.bind (ih heval.2)
    intro values
    apply hR.pure

theorem sequence (hR : Change R) (scope : ScopeId) (exprs : List Expr)
    (heval : ∀ e, (evaluator e scope).Changes (R scope)) :
    (Eval.sequence evaluator scope exprs).Changes (R scope) := by
  fun_induction Eval.sequence evaluator scope exprs with
  | case1 => apply hR.pure
  | case2 => apply heval
  | case3 e exprs _ ih =>
    apply hR.bind
    . apply heval
    . intro _
      exact ih

theorem lambda (hR : Change R) (operands : Expr) (inner scope : ScopeId) :
    (Eval.lambda operands inner).Changes (R scope) := by
  unfold Eval.lambda
  repeat' split
  . apply hR.fail
  . apply hR.fail
  . apply hR.fail
  . apply hR.bind
    . apply hR.report
    . intro _ store
      apply hR.count
  . apply hR.fail

theorem setq (hR : Change R) (operands : Expr) (scope : ScopeId)
    (heval : ∀ e, (evaluator e scope).Changes (R scope)) :
    (Eval.setq evaluator operands scope).Changes (R scope) := by
  unfold Eval.setq
  split
  . apply hR.bind
    . apply heval
    . intro value
      apply hR.bind
      . apply hR.define_name
      . intro _
        apply hR.pure
  . apply hR.fail
  . apply hR.fail

theorem checkArity (hR : Change R) (callee : Callee) (arity : Arity) (found : Nat)
    (scope : ScopeId) :
    (Eval.checkArity callee arity found).Changes (R scope) := by
  unfold Eval.checkArity
  repeat' split
  . apply hR.pure
  . apply hR.fail
  . apply hR.pure

theorem applyNative (hR : Change R) (f : Native) (args : List Expr) (scope : ScopeId)
    (heval : ∀ e ∈ args, (evaluator e scope).Changes (R scope)) :
    (Eval.applyNative evaluator f args scope).Changes (R scope) := by
  unfold Eval.applyNative
  apply hR.bind
  . apply hR.checkArity
  . intro _
    apply hR.bind (hR.all scope args heval)
    intro values
    apply hR.bind
    . apply hR.report
    . intro _
      split
      . apply hR.pure
      . apply hR.fail

theorem runBody (hR : Change R) (captured : ScopeId) (params : List String) (body : Expr)
    (values : List Expr) (scope : ScopeId)
    (heval : ∀ e scope, (evaluator e scope).Changes (R scope)) :
    (Eval.runBody evaluator captured params body values).Changes (R scope) := by
  unfold Eval.runBody
  apply hR.enclose_bind
  intro frame
  apply hR.bind
  . apply hR.defineAll
  . intro _
    apply hR.bind
    . apply hR.report
    . intro _
      apply heval

theorem applyClosure (hR : Change R) (captured : ScopeId) (params : List String) (body : Expr)
    (args : List Expr) (scope : ScopeId)
    (heval : ∀ e scope, (evaluator e scope).Changes (R scope)) :
    (Eval.applyClosure evaluator captured params body args scope).Changes (R scope) := by
  unfold Eval.applyClosure
  apply hR.bind
  . apply hR.checkArity
  . intro _
    apply hR.bind
    . apply hR.all
      intro e _
      apply heval
    . intro values
      apply hR.runBody captured params body values scope heval

theorem apply (hR : Change R) (callable args : Expr) (scope : ScopeId)
    (heval : ∀ e scope, (evaluator e scope).Changes (R scope)) :
    (Eval.apply evaluator callable args scope).Changes (R scope) := by
  unfold Eval.apply
  repeat' split
  . apply hR.fail
  . apply hR.applyNative
    intro e _
    apply heval
  . apply hR.applyClosure _ _ _ _ _ heval
  . apply hR.fail

theorem callInNewScope (hR : Change R) (operator args : Expr) (scope : ScopeId)
    (heval : ∀ e scope, (evaluator e scope).Changes (R scope)) :
    (Eval.callInNewScope evaluator operator args scope).Changes (R scope) := by
  unfold Eval.callInNewScope
  apply hR.bind
  . apply heval
  . intro callable
    split
    . apply hR.enclose_bind
      intro inner
      apply hR.apply callable args inner heval
    . apply hR.fail

theorem callInPlace (hR : Change R) (operator args : Expr) (scope : ScopeId)
    (heval : ∀ e scope, (evaluator e scope).Changes (R scope)) :
    (Eval.callInPlace evaluator operator args scope).Changes (R scope) := by
  unfold Eval.callInPlace
  apply hR.bind
  . apply heval
  . intro callable
    apply hR.apply callable args scope heval

theorem call (hR : Change R) (operator operands : Expr) (scope : ScopeId)
    (heval : ∀ e scope, (evaluator e scope).Changes (R scope)) :
    (Eval.call evaluator operator operands scope).Changes (R scope) := by
  unfold Eval.call
  repeat' split
  . apply hR.lambda
  . apply hR.setq
    intro e
    apply heval
  . apply hR.callInNewScope _ _ _ heval
  . apply hR.callInPlace _ _ _ heval
  . apply hR.callInNewScope _ _ _ heval

theorem step (hR : Change R) (e : Expr) (scope : ScopeId)
    (heval : ∀ e scope, (evaluator e scope).Changes (R scope)) :
    (Eval.step evaluator e scope).Changes (R scope) := by
  unfold Eval.step
  split
  . apply hR.lookup
  . apply hR.pure
  . apply hR.sequence
    intro e
    apply heval
  . apply hR.call _ _ _ heval
  . apply hR.pure

theorem evaluate (hR : Change R) (depth : Nat) (e : Expr) (scope : ScopeId) :
    (ChatLisp.evaluate depth e scope).Changes (R scope) := by
  induction depth generalizing e scope with
  | zero =>
    intro store
    apply hR.refl
  | succ depth ih => exact hR.step e scope ih

end Change

end Eval

end ChatLisp
