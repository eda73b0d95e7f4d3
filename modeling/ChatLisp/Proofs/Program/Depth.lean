import ChatLisp.Proofs.Eval.Depth
import ChatLisp.Program

/-!
This module contains the role of the depth that texts are granted. As with a single evaluation, it
decides whether the run of a text finishes, and nothing else.
-/

namespace ChatLisp

namespace Program

open StoreM

variable {depth more : Nat}

theorem refinedBy_runExprs (hle : depth ≤ more) (exprs : List Expr) (scope : ScopeId) :
    (runExprs depth exprs scope).RefinedBy (runExprs more exprs scope) := by
  unfold runExprs
  apply RefinedBy.bind_right
  intro _
  apply RefinedBy.mapError
  apply Eval.refinedBy_sequence
  exact Eval.refinedBy_evaluate hle

theorem refinedBy_run (hle : depth ≤ more) (text : String) (scope : ScopeId) :
    (run depth text scope).RefinedBy (run more text scope) := by
  unfold run
  split
  . apply RefinedBy.refl
  . apply RefinedBy.bind_right
    intro _
    split
    . apply RefinedBy.refl
    . apply RefinedBy.refl
    . exact refinedBy_runExprs hle _ scope

theorem run_eq_of_le (hle : depth ≤ more) {text : String} {scope : ScopeId} {store : Store}
    (h : (run depth text scope store).outcome ≠ .outOfFuel) :
    run more text scope store = run depth text scope store :=
  (refinedBy_run hle text scope).eq_of_ne h

end Program

end ChatLisp
