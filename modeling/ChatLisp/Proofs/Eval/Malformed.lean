import ChatLisp.Proofs.Eval.Renaming

/-!
This module contains the calls and forms that are refused as they stand. An evaluation takes the
evaluator for all that lies deeper as an argument, so nothing deeper is evaluated if the result is
the same for every such evaluator, among them those that define names, fail or never come to an end.
-/

namespace ChatLisp

namespace Eval

open StoreM

/--
Whatever the parts would do, the action fails with this error, in every store. It leaves the store
as it is and reports nothing. With `evaluate depth` for the parts, this is said of `apply depth` and
of `evaluate (depth + 1)`, for every depth.
-/
def Refuses (action : Evaluator → StoreM EvalError Expr) (e : EvalError) : Prop :=
  ∀ evaluator store, action evaluator store = ⟨.error e, store, []⟩

/--
The value is a function that takes so many arguments, and this is what errors call it.
-/
inductive Counts : Expr → Callee → Nat → Prop
  | closure (serial : Nat) (scope : ScopeId) (params : List String) (body : Expr) :
    Counts (.closure serial scope params body) .closure params.length
  | native (name : String) (expected : Nat) (primitive : Primitive) :
    Counts (.native ⟨name, .fixed expected, primitive⟩) (.native name) expected

/--
What is wrong with a call. The argument list is looked at before the value that is called, and this
value before the number of the arguments.
-/
inductive CallFault (callable args : Expr) : EvalError → Prop
  | improper :
    (∀ items, args ≠ .ofList items) → CallFault callable args (.improperArguments args)
  | notCallable (items : List Expr) :
    args = .ofList items → callable.isCallable = false →
    CallFault callable args (.notAProcedure callable)
  | wrongCount (items : List Expr) (callee : Callee) (expected : Nat) :
    args = .ofList items → Counts callable callee expected → items.length ≠ expected →
    CallFault callable args (.wrongArity callee expected items.length)

/--
What is wrong with the operands of a `setq`.
-/
inductive AssignmentFault (operands : Expr) : EvalError → Prop
  | notSymbol (target e : Expr) :
    operands = .ofList [target, e] → (∀ name, target ≠ .symbol name) →
    AssignmentFault operands (.notASymbol target)
  | wrongCount :
    (∀ target e, operands ≠ .ofList [target, e]) →
    AssignmentFault operands (.invalidSpecialForm .malformedAssignment)

/--
What is wrong with the operands of a `lambda`. The parameters are looked at from left to right, and
before the body.
-/
inductive LambdaFault (operands : Expr) : EvalError → Prop
  | missingParameters :
    (∀ params body, operands ≠ .cons params body) →
    LambdaFault operands (.invalidSpecialForm .missingParameters)
  | improperParameters (params body : Expr) :
    operands = .cons params body → (∀ items, params ≠ .ofList items) →
    LambdaFault operands (.invalidSpecialForm (.improperParameters params))
  | notSymbol (names : List String) (other : Expr) (items : List Expr) (body : Expr) :
    operands = .cons (.ofList (names.map .symbol ++ other :: items)) body →
    (∀ name, other ≠ .symbol name) →
    LambdaFault operands (.notASymbol other)
  | improperBody (names : List String) (body : Expr) :
    operands = .cons (.ofList (names.map .symbol)) body → (∀ exprs, body ≠ .ofList exprs) →
    LambdaFault operands (.invalidSpecialForm .improperBody)

/--
The evaluator for which everything is worth `nil`.
-/
def idle : Evaluator :=
  fun _ _ => pure .nil

section

variable {action : Evaluator → StoreM EvalError Expr} {e e' : EvalError}

theorem Refuses.unique (h : Refuses action e) (h' : Refuses action e') : e = e' := by
  have hsame := (h idle .empty).symm.trans (h' idle .empty)
  cases hsame
  rfl

theorem Refuses.fault {Fault : EvalError → Prop} (h : Refuses action e)
    (hrefuses : ∀ error, Fault error → Refuses action error) (error : EvalError)
    (hfault : Fault error) : Fault e := by
  rwa [h.unique (hrefuses error hfault)]

theorem Refuses.outcome_eq (h : Refuses action e) (evaluator : Evaluator) (store : Store) :
    (action evaluator store).outcome = .error e :=
  congrArg Run.outcome (h evaluator store)

theorem Refuses.events_eq (h : Refuses action e) (evaluator : Evaluator) (store : Store) :
    (action evaluator store).events = [] :=
  congrArg Run.events (h evaluator store)

end

variable {evaluator : Evaluator} {callable args operands e : Expr} {items : List Expr}
  {callee : Callee} {arity : Arity} {expected found : Nat} {error : EvalError} {scope : ScopeId}

theorem refuses_wrongCount (hcounts : Counts callable callee expected)
    (hlength : items.length ≠ expected) (scope : ScopeId) :
    Refuses (fun evaluator => Eval.apply evaluator callable (.ofList items) scope)
      (.wrongArity callee expected items.length) := by
  intro evaluator store
  dsimp only
  cases hcounts with
  | closure serial captured params body =>
    rw [apply_closure, Eval.applyClosure, checkArity_of_ne hlength]
    rfl
  | native name expected primitive =>
    rw [apply_native, Eval.applyNative, checkArity_of_ne hlength]
    rfl

theorem CallFault.refuses (h : CallFault callable args error) (scope : ScopeId) :
    Refuses (fun evaluator => Eval.apply evaluator callable args scope) error := by
  cases h with
  | improper himproper =>
    intro evaluator store
    dsimp only
    rw [Eval.apply, Expr.items?_eq_none_iff.mpr himproper]
    rfl
  | notCallable items hargs hcallable =>
    subst hargs
    intro evaluator store
    dsimp only
    rw [Eval.apply, Expr.items?_ofList]
    cases callable with
    | closure _ _ _ _ => cases hcallable
    | native _ => cases hcallable
    | _ => rfl
  | wrongCount items callee expected hargs hcounts hlength =>
    subst hargs
    exact refuses_wrongCount hcounts hlength scope

theorem all_idle (scope : ScopeId) (items : List Expr) :
    Eval.all idle scope items = pure (items.map fun _ => .nil) := by
  induction items with
  | nil => rfl
  | cons item items ih =>
    rw [Eval.all, ih, List.map_cons]
    rfl

theorem outcome_apply_closure_idle {params : List String} (hlength : items.length = params.length)
    (serial : Nat) (captured : ScopeId) (body : Expr) (scope : ScopeId) (store : Store) :
    (Eval.apply idle (.closure serial captured params body) (.ofList items) scope store).outcome =
      .value .nil := by
  have hadmits : (Arity.fixed params.length).Admits items.length := hlength
  rw [apply_closure, Eval.applyClosure, checkArity_of_admits hadmits]
  rw [pure_bind, all_idle, pure_bind]
  exact (runBody_eq ..).1

theorem events_apply_native_idle {f : Native} (hadmits : f.arity.Admits items.length)
    (scope : ScopeId) (store : Store) :
    (Eval.apply idle (.native f) (.ofList items) scope store).events ≠ [] := by
  have hall := congrFun (all_idle scope items) store
  rw [apply_native, applyNative_of_all hadmits hall]
  exact List.cons_ne_nil _ _

theorem refuses_apply_iff :
    Refuses (fun evaluator => Eval.apply evaluator callable args scope) error ↔
      CallFault callable args error := by
  constructor
  . intro h
    have hfault := h.fault fun _ (hcall : CallFault callable args _) => hcall.refuses scope
    by_cases himproper : ∀ items, args ≠ .ofList items
    . exact hfault _ (.improper himproper)
    rw [not_forall_not] at himproper
    obtain ⟨items, rfl⟩ := himproper
    cases callable with
    | closure serial captured params body =>
      by_cases hlength : items.length = params.length
      . have hvalue := outcome_apply_closure_idle hlength serial captured body scope .empty
        cases (h.outcome_eq idle .empty).symm.trans hvalue
      . exact hfault _ (.wrongCount items _ _ rfl (.closure ..) hlength)
    | native f =>
      obtain ⟨name, arity, primitive⟩ := f
      cases arity with
      | fixed expected =>
        by_cases hlength : items.length = expected
        . subst hlength
          have hevents := events_apply_native_idle (f := ⟨name, .fixed items.length, primitive⟩)
            rfl scope .empty
          exact absurd (h.events_eq idle .empty) hevents
        . exact hfault _ (.wrongCount items _ _ rfl (.native ..) hlength)
      | variadic =>
        have hadmits : Arity.variadic.Admits items.length := trivial
        have hevents := events_apply_native_idle (f := ⟨name, .variadic, primitive⟩) hadmits scope
          .empty
        exact absurd (h.events_eq idle .empty) hevents
    | _ => exact hfault _ (.notCallable items rfl rfl)
  . intro h
    exact h.refuses scope

theorem step_setq (evaluator : Evaluator) (operands : Expr) (scope : ScopeId) :
    Eval.step evaluator (.cons (.symbol "setq") operands) scope =
      Eval.setq evaluator operands scope := by
  rw [Eval.step, Eval.call, if_neg (by decide), if_pos rfl]

theorem step_lambda (evaluator : Evaluator) (operands : Expr) (scope : ScopeId) :
    Eval.step evaluator (.cons (.symbol "lambda") operands) scope = Eval.lambda operands scope := by
  rw [Eval.step, Eval.call, if_pos rfl]

theorem AssignmentFault.refuses (h : AssignmentFault operands error) (scope : ScopeId) :
    Refuses (fun evaluator => Eval.step evaluator (.cons (.symbol "setq") operands) scope)
      error := by
  intro evaluator store
  dsimp only
  rw [step_setq]
  cases h with
  | notSymbol target e hoperands htarget =>
    rw [setq_of_ne_symbol (hoperands ▸ Expr.items?_ofList _) htarget]
    rfl
  | wrongCount hoperands =>
    rw [setq_of_length_ne]
    . rfl
    . rintro ⟨items, hitems, hlength⟩
      obtain ⟨target, e, rfl⟩ := List.length_eq_two.mp hlength
      exact hoperands target e (Expr.eq_ofList_of_items? hitems)

theorem refuses_setq_iff :
    Refuses (fun evaluator => Eval.step evaluator (.cons (.symbol "setq") operands) scope) error ↔
      AssignmentFault operands error := by
  constructor
  . intro h
    have hfault := h.fault fun _ (hsetq : AssignmentFault operands _) => hsetq.refuses scope
    by_cases hcount : ∀ target e, operands ≠ .ofList [target, e]
    . exact hfault _ (.wrongCount hcount)
    simp only [not_forall, not_not] at hcount
    obtain ⟨target, e, rfl⟩ := hcount
    by_cases htarget : ∀ name, target ≠ .symbol name
    . exact hfault _ (.notSymbol target e rfl htarget)
    rw [not_forall_not] at htarget
    obtain ⟨name, rfl⟩ := htarget
    cases h.outcome_eq idle .empty
  . intro h
    exact h.refuses scope

theorem paramNames_map_symbol (names : List String) :
    paramNames (names.map .symbol) = .ok names := by
  induction names with
  | nil => rfl
  | cons name names ih =>
    rw [List.map_cons, paramNames, ih]
    rfl

theorem paramNames_append {other : Expr} (hother : ∀ name, other ≠ .symbol name)
    (names : List String) (items : List Expr) :
    paramNames (names.map .symbol ++ other :: items) = .error (.notASymbol other) := by
  induction names with
  | nil => exact paramNames_of_ne_symbol hother items
  | cons name names ih =>
    rw [List.map_cons, List.cons_append, paramNames, ih]
    rfl

theorem paramNames_cases (items : List Expr) :
    (∃ names : List String, items = names.map .symbol) ∨
      ∃ (names : List String) (other : Expr) (rest : List Expr),
        items = names.map .symbol ++ other :: rest ∧ ∀ name, other ≠ .symbol name := by
  induction items with
  | nil => exact .inl ⟨[], rfl⟩
  | cons item items ih =>
    by_cases hitem : ∀ name, item ≠ .symbol name
    . exact .inr ⟨[], item, items, rfl, hitem⟩
    rw [not_forall_not] at hitem
    obtain ⟨name, rfl⟩ := hitem
    obtain ⟨names, rfl⟩ | ⟨names, other, rest, rfl, hother⟩ := ih
    . exact .inl ⟨name :: names, rfl⟩
    . exact .inr ⟨name :: names, other, rest, rfl, hother⟩

theorem LambdaFault.refuses (h : LambdaFault operands error) (scope : ScopeId) :
    Refuses (fun evaluator => Eval.step evaluator (.cons (.symbol "lambda") operands) scope)
      error := by
  intro evaluator store
  dsimp only
  rw [step_lambda]
  cases h with
  | missingParameters hoperands =>
    cases operands with
    | cons params body => exact absurd rfl (hoperands params body)
    | _ => rfl
  | improperParameters params body hoperands hparams =>
    subst hoperands
    rw [lambda_cons, parameters, Expr.items?_eq_none_iff.mpr hparams]
    rfl
  | notSymbol names other items body hoperands hother =>
    subst hoperands
    rw [lambda_cons, parameters, Expr.items?_ofList]
    dsimp only
    rw [paramNames_append hother]
    rfl
  | improperBody names body hoperands hbody =>
    subst hoperands
    rw [lambda_cons, parameters, Expr.items?_ofList]
    dsimp only
    rw [paramNames_map_symbol, Expr.items?_eq_none_iff.mpr hbody]
    rfl

theorem step_lambda_ofList (evaluator : Evaluator) (names : List String) (exprs : List Expr)
    (scope : ScopeId) (store : Store) :
    Eval.step evaluator
        (.cons (.symbol "lambda") (.cons (.ofList (names.map .symbol)) (.ofList exprs))) scope
        store =
      ⟨.value (.closure store.closures scope names (.sequence exprs)),
        { store with closures := store.closures + 1 },
        [.closureCreated names.length exprs.length]⟩ := by
  rw [step_lambda, lambda_cons, parameters, Expr.items?_ofList, Expr.items?_ofList]
  dsimp only
  rw [paramNames_map_symbol]
  rfl

theorem lambdaFault_or (operands : Expr) :
    (∃ error, LambdaFault operands error) ∨
      ∃ (names : List String) (exprs : List Expr),
        operands = .cons (.ofList (names.map .symbol)) (.ofList exprs) := by
  by_cases hoperands : ∀ params body, operands ≠ .cons params body
  . exact .inl ⟨_, .missingParameters hoperands⟩
  simp only [not_forall, not_not] at hoperands
  obtain ⟨params, body, rfl⟩ := hoperands
  by_cases hparams : ∀ items, params ≠ .ofList items
  . exact .inl ⟨_, .improperParameters params body rfl hparams⟩
  rw [not_forall_not] at hparams
  obtain ⟨items, rfl⟩ := hparams
  obtain ⟨names, rfl⟩ | ⟨names, other, rest, rfl, hother⟩ := paramNames_cases items
  . by_cases hbody : ∀ exprs, body ≠ .ofList exprs
    . exact .inl ⟨_, .improperBody names body rfl hbody⟩
    rw [not_forall_not] at hbody
    obtain ⟨exprs, rfl⟩ := hbody
    exact .inr ⟨names, exprs, rfl⟩
  . exact .inl ⟨_, .notSymbol names other rest body rfl hother⟩

/--
Exactly the calls and the assignments with a fault are refused before anything is evaluated, with
the error of the fault. In a `lambda` nothing is evaluated in any case: it is refused, or it makes a
closure and leaves all frames as they are.
-/
theorem refuses_iff_fault (scope : ScopeId) :
    (∀ callable args error,
      Refuses (fun evaluator => Eval.apply evaluator callable args scope) error ↔
        CallFault callable args error) ∧
    (∀ operands error,
      Refuses (fun evaluator => Eval.step evaluator (.cons (.symbol "setq") operands) scope) error ↔
        AssignmentFault operands error) ∧
    ∀ operands,
      (∃ error, LambdaFault operands error ∧
        Refuses (fun evaluator => Eval.step evaluator (.cons (.symbol "lambda") operands) scope)
          error) ∨
      ∃ (names : List String) (exprs : List Expr),
        operands = .cons (.ofList (names.map .symbol)) (.ofList exprs) ∧
        ∀ evaluator store,
          Eval.step evaluator (.cons (.symbol "lambda") operands) scope store =
            ⟨.value (.closure store.closures scope names (.sequence exprs)),
              { store with closures := store.closures + 1 },
              [.closureCreated names.length exprs.length]⟩ := by
  refine ⟨fun _ _ _ => refuses_apply_iff, fun _ _ => refuses_setq_iff, ?_⟩
  intro operands
  obtain ⟨error, hfault⟩ | ⟨names, exprs, rfl⟩ := lambdaFault_or operands
  . exact .inl ⟨error, hfault, hfault.refuses scope⟩
  . refine .inr ⟨names, exprs, rfl, ?_⟩
    intro evaluator store
    exact step_lambda_ofList evaluator names exprs scope store

end Eval

end ChatLisp
