import ChatLisp.Eval.Run
import ChatLisp.Primitive

/-!
This module contains the evaluator. A single step of it, `Eval.step`, is given the evaluator for all
that lies deeper, and `evaluate` grants a depth to the whole. So every law of the evaluator is an
induction on that depth whose step case looks at one expression.
-/

namespace ChatLisp

abbrev Evaluator := Expr → ScopeId → StoreM EvalError Expr

/--
The names that are not looked up but evaluated by a rule of their own.
-/
def specialForms : List String :=
  ["lambda", "setq"]

/--
Whether a function of this arity may be applied to so many arguments.
-/
def Arity.Admits : Arity → Nat → Prop
  | fixed expected, count => count = expected
  | variadic, _ => True

namespace Eval

open StoreM

def lookup (name : String) (scope : ScopeId) : StoreM EvalError Expr := do
  match ← read (·.lookup? scope name) with
  | some value => pure value
  | none => fail (.unbound name)

def define (name : String) (value : Expr) (scope : ScopeId) : StoreM EvalError Unit := do
  report (.bound name value)
  modify (·.define scope name value)

def defineAll (scope : ScopeId) : List (String × Expr) → StoreM EvalError Unit
  | [] => pure ()
  | (name, value) :: rest => do
    define name value scope
    defineAll scope rest

def enclose (outer : ScopeId) : StoreM EvalError ScopeId := do
  let scope ← read Store.nextScope
  modify (·.enclose outer)
  pure scope

def all (evaluator : Evaluator) (scope : ScopeId) : List Expr → StoreM EvalError (List Expr)
  | [] => pure []
  | expr :: exprs => do
    let value ← evaluator expr scope
    let values ← all evaluator scope exprs
    pure (value :: values)

/--
The value of the last of several expressions that are evaluated in turn.
-/
def sequence (evaluator : Evaluator) (scope : ScopeId) : List Expr → StoreM EvalError Expr
  | [] => pure .nil
  | [expr] => evaluator expr scope
  | expr :: exprs => do
    let _ ← evaluator expr scope
    sequence evaluator scope exprs

def paramNames : List Expr → Except EvalError (List String)
  | [] => .ok []
  | .symbol name :: params => (paramNames params).map (name :: ·)
  | other :: _ => .error (.notASymbol other)

/--
The value of a `lambda` with the given operands: a closure over the current scope. None of the
operands is evaluated.
-/
def lambda (operands : Expr) (scope : ScopeId) : StoreM EvalError Expr :=
  match operands with
  | .cons params body =>
    match params.items? with
    | none => fail (.invalidSpecialForm (.improperParameters params))
    | some items =>
      match paramNames items with
      | .error e => fail e
      | .ok names =>
        match body.items? with
        | none => fail (.invalidSpecialForm .improperBody)
        | some exprs => do
          report (.closureCreated names.length exprs.length)
          let serial ← read Store.closures
          modify fun store => { store with closures := store.closures + 1 }
          pure (.closure serial scope names (.sequence exprs))
  | _ => fail (.invalidSpecialForm .missingParameters)

def setq (evaluator : Evaluator) (operands : Expr) (scope : ScopeId) : StoreM EvalError Expr :=
  match operands.items? with
  | some [.symbol name, expr] => do
    let value ← evaluator expr scope
    define name value scope
    pure value
  | some [other, _] => fail (.notASymbol other)
  | _ => fail (.invalidSpecialForm .malformedAssignment)

def checkArity (callee : Callee) (arity : Arity) (found : Nat) : StoreM EvalError Unit :=
  match arity with
  | .fixed expected =>
    if found = expected then pure () else fail (.wrongArity callee expected found)
  | .variadic => pure ()

theorem checkArity_of_admits {arity : Arity} {found : Nat} (h : arity.Admits found)
    (callee : Callee) :
    checkArity callee arity found = pure () := by
  cases arity with
  | fixed expected => exact if_pos h
  | variadic => rfl

theorem checkArity_of_ne {expected found : Nat} (h : found ≠ expected) (callee : Callee) :
    checkArity callee (.fixed expected) found = fail (.wrongArity callee expected found) :=
  if_neg h

def applyNative (evaluator : Evaluator) (f : Native) (args : List Expr) (scope : ScopeId) :
    StoreM EvalError Expr := do
  checkArity (.native f.name) f.arity args.length
  let values ← all evaluator scope args
  report (.nativeApplied f.name values.length)
  match f.primitive.run values with
  | .ok value => pure value
  | .error e => fail e

theorem length_of_all {evaluator : Evaluator} {scope : ScopeId} {exprs values : List Expr}
    {store : Store} (h : (all evaluator scope exprs store).outcome = .value values) :
    values.length = exprs.length := by
  induction exprs generalizing values store with
  | nil =>
    cases h
    rfl
  | cons e exprs ih =>
    rw [all, outcome_bind] at h
    split at h
    . rw [outcome_bind] at h
      split at h
      . next rest hrest =>
        cases h
        exact congrArg Nat.succ (ih hrest)
      . cases h
      . cases h
    . cases h
    . cases h

theorem applyNative_of_all {evaluator : Evaluator} {f : Native} {args values : List Expr}
    {scope : ScopeId} {store after : Store} {events : List Event}
    (hadmits : f.arity.Admits args.length)
    (hall : all evaluator scope args store = ⟨.value values, after, events⟩) :
    applyNative evaluator f args scope store =
      ⟨.ofExcept (f.primitive.run values), after,
        events ++ [.nativeApplied f.name values.length]⟩ := by
  rw [applyNative, checkArity_of_admits hadmits, pure_bind]
  change (all evaluator scope args).bind _ store = _
  rw [StoreM.bind, hall]
  cases hrun : f.primitive.run values with
  | ok value => simp [hrun, report, Outcome.ofExcept, Bind.bind, StoreM.bind]
  | error e => simp [hrun, report, Outcome.ofExcept, Bind.bind, StoreM.bind, fail]

/--
Evaluate the body of a closure in a scope of its own, which binds the parameters and lies inside the
scope the closure was made in.
-/
def runBody (evaluator : Evaluator) (captured : ScopeId) (params : List String) (body : Expr)
    (values : List Expr) : StoreM EvalError Expr := do
  let frame ← enclose captured
  defineAll frame (params.zip values)
  report (.closureApplied values.length)
  evaluator body frame

/--
Apply a closure to argument expressions. The arguments are evaluated in the scope of the call.
-/
def applyClosure (evaluator : Evaluator) (captured : ScopeId) (params : List String) (body : Expr)
    (args : List Expr) (scope : ScopeId) : StoreM EvalError Expr := do
  checkArity .closure (.fixed params.length) args.length
  let values ← all evaluator scope args
  runBody evaluator captured params body values

/--
Apply a value to a list of argument expressions. The list is checked before the value, and the
number of the arguments before any of them is evaluated.
-/
def apply (evaluator : Evaluator) (callable args : Expr) (scope : ScopeId) :
    StoreM EvalError Expr :=
  match args.items? with
  | none => fail (.improperArguments args)
  | some args =>
    match callable with
    | .native f => applyNative evaluator f args scope
    | .closure _ captured params body => applyClosure evaluator captured params body args scope
    | other => fail (.notAProcedure other)

theorem apply_native (evaluator : Evaluator) (f : Native) (items : List Expr) (scope : ScopeId) :
    apply evaluator (.native f) (.ofList items) scope = applyNative evaluator f items scope := by
  rw [apply, Expr.items?_ofList]

theorem apply_closure (evaluator : Evaluator) (serial : Nat) (captured : ScopeId)
    (params : List String) (body : Expr) (items : List Expr) (scope : ScopeId) :
    apply evaluator (.closure serial captured params body) (.ofList items) scope =
      applyClosure evaluator captured params body items scope := by
  rw [apply, Expr.items?_ofList]

/--
A call whose operator is no cons cell. It is applied in a new scope, so what its arguments define
does not outlast the call.
-/
def callInNewScope (evaluator : Evaluator) (operator args : Expr) (scope : ScopeId) :
    StoreM EvalError Expr := do
  let callable ← evaluator operator scope
  if callable.isCallable then
    let inner ← enclose scope
    apply evaluator callable args inner
  else
    fail (.notAProcedure callable)

/--
A call whose operator is a cons cell. It is applied in the current scope.
-/
def callInPlace (evaluator : Evaluator) (operator args : Expr) (scope : ScopeId) :
    StoreM EvalError Expr := do
  let callable ← evaluator operator scope
  apply evaluator callable args scope

def call (evaluator : Evaluator) (operator operands : Expr) (scope : ScopeId) :
    StoreM EvalError Expr :=
  match operator with
  | .symbol name =>
    if name = "lambda" then lambda operands scope
    else if name = "setq" then setq evaluator operands scope
    else callInNewScope evaluator operator operands scope
  | .cons _ _ => callInPlace evaluator operator operands scope
  | _ => callInNewScope evaluator operator operands scope

/--
Evaluate one expression, with `evaluator` for all that lies deeper.
-/
def step (evaluator : Evaluator) : Evaluator := fun expr scope =>
  match expr with
  | .symbol name => lookup name scope
  | .quoted inner => pure inner
  | .sequence exprs => sequence evaluator scope exprs
  | .cons operator operands => call evaluator operator operands scope
  | value => pure value

end Eval

/--
Evaluate an expression in a scope. `depth` bounds how deep evaluations may nest.
-/
def evaluate (depth : Nat) : Evaluator :=
  match depth with
  | 0 => fun _ _ => StoreM.giveUp
  | depth + 1 => Eval.step (evaluate depth)

def apply (depth : Nat) (callable args : Expr) (scope : ScopeId) : StoreM EvalError Expr :=
  Eval.apply (evaluate depth) callable args scope

end ChatLisp
