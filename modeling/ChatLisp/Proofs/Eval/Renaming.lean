import ChatLisp.Proofs.Eval.Depth
import ChatLisp.Proofs.Program.Invariant
import ChatLisp.Proofs.Scope.Renaming

/-!
This module contains the evaluation of code in which a parameter is renamed. The renamed code does
in a renamed store what the code does in the store itself, one step after the other. So the names of
the parameters do not matter to a call.
-/

namespace ChatLisp

/--
Both ends are values that are related, or both are errors of the same kind, or neither computation
came to an end. The remark on an error tells its kind, and nothing else of it.
-/
inductive Outcome.Mirrored {α β : Type} (R : α → β → Prop) :
    Outcome EvalError α → Outcome EvalError β → Prop
  | value {a : α} {b : β} : R a b → Mirrored R (.value a) (.value b)
  | error {e e' : EvalError} : Report.evalRemark e' = Report.evalRemark e →
    Mirrored R (.error e) (.error e')
  | outOfFuel : Mirrored R .outOfFuel .outOfFuel

theorem Outcome.Mirrored.answer?_eq {r : Renaming} {regions : List Region}
    {outcome outcome' : Outcome EvalError Expr} (h : Mirrored (r.Like regions) outcome outcome') :
    outcome'.answer? Report.evalRemark = outcome.answer? Report.evalRemark := by
  cases h with
  | value hlike => rw [Outcome.answer?, Outcome.answer?, hlike.print_eq]
  | error hremark => rw [Outcome.answer?, Outcome.answer?, hremark]
  | outOfFuel => rfl

namespace StoreM

variable {α α' β β' : Type} {r : Renaming} {regions : List Region}
  {R : List Region → α → α' → Prop} {S : List Region → β → β' → Prop}

/--
The second action does in the renamed store what the first one does in the store itself. What it
means that their values correspond may depend on the scopes that were made meanwhile.
-/
def Mirrors (r : Renaming) (regions : List Region) (R : List Region → α → α' → Prop)
    (action : StoreM EvalError α) (action' : StoreM EvalError α') : Prop :=
  ∀ store store', r.Mirrors regions store store' →
    ∃ more, regions <+: more ∧ r.Mirrors more (action store).store (action' store').store ∧
      Outcome.Mirrored (R more) (action store).outcome (action' store').outcome

theorem mirrors_pure {a : α} {a' : α'} (h : R regions a a') :
    Mirrors r regions R (pure a) (pure a') := by
  intro store store' hmirrors
  exact ⟨regions, List.prefix_rfl, hmirrors, .value h⟩

theorem mirrors_fail {e e' : EvalError} (h : Report.evalRemark e' = Report.evalRemark e) :
    Mirrors r regions R (fail e) (fail e') := by
  intro store store' hmirrors
  exact ⟨regions, List.prefix_rfl, hmirrors, .error h⟩

theorem mirrors_report (event event' : Event) :
    Mirrors r regions (fun _ _ _ => True) (report event) (report event') := by
  intro store store' hmirrors
  exact ⟨regions, List.prefix_rfl, hmirrors, .value trivial⟩

theorem mirrors_read {f : Store → α} {f' : Store → α'}
    (h : ∀ store store', r.Mirrors regions store store' → R regions (f store) (f' store')) :
    Mirrors r regions R (read f) (read f') := by
  intro store store' hmirrors
  exact ⟨regions, List.prefix_rfl, hmirrors, .value (h store store' hmirrors)⟩

theorem Mirrors.bind {action : StoreM EvalError α} {action' : StoreM EvalError α'}
    {f : α → StoreM EvalError β} {f' : α' → StoreM EvalError β'}
    (haction : Mirrors r regions R action action')
    (hf : ∀ more a a', regions <+: more → R more a a' → Mirrors r more S (f a) (f' a')) :
    Mirrors r regions S (action >>= f) (action' >>= f') := by
  intro store store' hmirrors
  obtain ⟨more, hle, hmirrors, hend⟩ := haction store store' hmirrors
  rw [store_bind, store_bind, outcome_bind, outcome_bind]
  generalize (action store).outcome = outcome, (action' store').outcome = outcome' at hend
  cases hend with
  | value hvalue =>
    obtain ⟨most, hmost, hmirrors, hend⟩ := hf more _ _ hle hvalue _ _ hmirrors
    exact ⟨most, hle.trans hmost, hmirrors, hend⟩
  | error hremark => exact ⟨more, hle, hmirrors, .error hremark⟩
  | outOfFuel => exact ⟨more, hle, hmirrors, .outOfFuel⟩

end StoreM

namespace Eval

open StoreM Renaming

/--
The evaluator does with renamed code in a renamed store what it does with the code in the store
itself.
-/
def Renames (r : Renaming) (evaluator : Evaluator) : Prop :=
  ∀ regions region scope e, regions[scope]? = some region → r.Covers regions region e →
    StoreM.Mirrors r regions r.Like (evaluator e scope)
      (evaluator (r.codeIn region .item e) scope)

variable {r : Renaming} {regions : List Region} {region : Region} {scope : ScopeId}

theorem mirrors_lookup (hscope : regions[scope]? = some region) {name : String}
    (hname : r.Uses region name) :
    StoreM.Mirrors r regions r.Like (Eval.lookup name scope)
      (Eval.lookup (r.nameIn region name) scope) := by
  unfold Eval.lookup
  apply Mirrors.bind (R := fun more => Option.Rel (r.Like more))
  . apply mirrors_read
    intro store store' hmirrors
    exact hmirrors.lookup? hscope hname
  . intro more value value' _ hvalue
    cases hvalue with
    | some hvalue => exact mirrors_pure hvalue
    | none => exact mirrors_fail rfl

theorem mirrors_define (hscope : regions[scope]? = some region) {name : String}
    (hname : r.Uses region name) {value value' : Expr} (hvalue : r.Like regions value value') :
    StoreM.Mirrors r regions (fun _ _ _ => True) (Eval.define name value scope)
      (Eval.define (r.nameIn region name) value' scope) := by
  unfold Eval.define
  apply (mirrors_report _ _).bind
  intro more _ _ hle _ store store' hmirrors
  have hdefined := hmirrors.define (getElem?_of_extends hle hscope) hname (hvalue.mono hle)
  exact ⟨more, List.prefix_rfl, hdefined, .value trivial⟩

theorem mirrors_enclose (hscope : regions[scope]? = some region) :
    StoreM.Mirrors r regions (fun more inner inner' => inner' = inner ∧ more[inner]? = some region)
      (Eval.enclose scope) (Eval.enclose scope) := by
  intro store store' hmirrors
  refine ⟨regions ++ [region], List.prefix_append _ _, hmirrors.enclose hscope, .value ?_⟩
  have hinner : store.nextScope = regions.length := hmirrors.size
  rw [hinner]
  exact ⟨hmirrors.size', List.getElem?_concat_length⟩

theorem mirrors_checkArity (callee : Callee) (arity : Arity) (found : Nat) :
    StoreM.Mirrors r regions (fun _ _ _ => arity.Admits found)
      (Eval.checkArity callee arity found) (Eval.checkArity callee arity found) := by
  unfold Eval.checkArity
  split
  . split
    . next heq => exact mirrors_pure heq
    . exact mirrors_fail rfl
  . exact mirrors_pure trivial

theorem mirrors_close {names : List String} {exprs : List Expr}
    (h : r.Enters regions scope names (.sequence exprs) region) :
    StoreM.Mirrors r regions r.Like (close names exprs scope)
      (close (names.map (r.nameIn region)) (exprs.map (r.codeIn region .item)) scope) := by
  intro store store' hmirrors
  have hcounted : r.Mirrors regions { store with closures := store.closures + 1 }
      { store' with closures := store'.closures + 1 } :=
    ⟨hmirrors.size, hmirrors.size', hmirrors.outer, hmirrors.own, hmirrors.around⟩
  refine ⟨regions, List.prefix_rfl, hcounted, .value ?_⟩
  rw [← r.codeIn_sequence region .item]
  exact .closure store.closures store'.closures h

theorem mirrors_lambda {params params' body body' : Expr}
    (hparams : SameKind (fun names names' => names' = names.map (r.nameIn region))
      (parameters params) (parameters params'))
    (hbody : body'.items? = body.items?.map (List.map (r.codeIn region .item)))
    (henters : ∀ names exprs, parameters params = .ok names → body.items? = some exprs →
      r.Enters regions scope names (.sequence exprs) region) :
    StoreM.Mirrors r regions r.Like (Eval.lambda (.cons params body) scope)
      (Eval.lambda (.cons params' body') scope) := by
  rw [lambda_cons, lambda_cons, hbody]
  generalize parameters params = result, parameters params' = result' at hparams henters
  cases hparams with
  | error hremark => exact mirrors_fail hremark
  | ok hnames =>
    subst hnames
    cases hexprs : body.items? with
    | none => exact mirrors_fail rfl
    | some exprs => exact mirrors_close (henters _ exprs rfl hexprs)

theorem mirrors_operands (hscope : regions[scope]? = some region) {operands : Expr}
    (h : r.Covers regions region operands) :
    StoreM.Mirrors r regions r.Like (Eval.lambda operands scope)
      (Eval.lambda (r.codeIn region .tail operands) scope) := by
  cases operands with
  | cons params body =>
    obtain ⟨hparams, hbody⟩ := covers_cons.mp h
    rw [r.codeIn_cons_tail]
    apply mirrors_lambda (parameters_codeIn r region params) (r.items?_codeIn_tail region body)
    intro names exprs hnames hexprs
    constructor
    . exact hparams.parameters hnames
    . exact hbody.sequence hexprs
    . exact ⟨region, hscope, fun name huses _ => ⟨huses, rfl⟩⟩
  | _ => cases region <;> exact mirrors_fail rfl

/--
A `lambda` form that lists the old name is left as it is, and what it makes runs in a region where
the name is shadowed.
-/
theorem mirrors_rebinding (hscope : regions[scope]? = some .inside) {params body : Expr}
    (h : r.Covers regions .inside (.cons params body)) (hlists : params.lists r.old) :
    StoreM.Mirrors r regions r.Like (Eval.lambda (.cons params body) scope)
      (Eval.lambda (.cons params body) scope) := by
  obtain ⟨hparams, hbody⟩ := covers_cons.mp (h.inner nofun .shadowed)
  -- In a shadowed region, renaming leaves all code as it is.
  apply mirrors_lambda (parameters_codeIn r .shadowed params) (r.items?_codeIn_tail .shadowed body)
  intro names exprs hnames hexprs
  apply enters_of_mem hscope ((mem_parameters_iff hnames r.old).mpr hlists) (by rintro ⟨⟩)
  . exact hparams.parameters hnames
  . exact hbody.sequence hexprs

theorem defineAll_push (store : Store) (frame : Frame) (pairs : List (String × Expr)) :
    ∃ events, Eval.defineAll store.nextScope pairs (store.push frame) =
      ⟨.value (), store.push { frame with bindings := frame.bindings.setAll pairs }, events⟩ := by
  induction pairs generalizing frame with
  | nil => exact ⟨[], rfl⟩
  | cons pair pairs ih =>
    obtain ⟨name, value⟩ := pair
    obtain ⟨events, hrest⟩ := ih { frame with bindings := frame.bindings.set name value }
    have hdefine : Eval.define name value store.nextScope (store.push frame) =
        ⟨.value (), (store.push frame).define store.nextScope name value, [.bound name value]⟩ :=
      rfl
    rw [Store.define_push] at hdefine
    refine ⟨.bound name value :: events, ?_⟩
    change StoreM.bind (Eval.define name value store.nextScope)
      (fun _ => Eval.defineAll store.nextScope pairs) (store.push frame) = _
    simp only [StoreM.bind, hdefine, hrest]
    rfl

theorem runBody_eq (evaluator : Evaluator) (captured : ScopeId) (params : List String)
    (body : Expr) (values : List Expr) (store : Store) :
    let run := evaluator body store.nextScope
      (store.push ⟨some captured, Bindings.setAll [] (params.zip values)⟩)
    (Eval.runBody evaluator captured params body values store).outcome = run.outcome ∧
      (Eval.runBody evaluator captured params body values store).store = run.store := by
  -- A scope that binds some of the parameters only is no scope to compare: the others would mean
  -- there what they mean further out.
  obtain ⟨events, hrun⟩ := defineAll_push store ⟨some captured, []⟩ (params.zip values)
  have henclose : Eval.enclose captured store =
      (⟨.value store.nextScope, store.push ⟨some captured, []⟩, []⟩ : Run EvalError ScopeId) := rfl
  simp only [Eval.runBody, outcome_bind, store_bind, henclose, hrun]
  exact ⟨rfl, rfl⟩

theorem setq_of_ne_symbol {evaluator : Evaluator} {operands target e : Expr}
    (hitems : operands.items? = some [target, e]) (h : ∀ name, target ≠ .symbol name) :
    Eval.setq evaluator operands scope = fail (.notASymbol target) := by
  rw [Eval.setq, hitems]
  cases target with
  | symbol name => exact absurd rfl (h name)
  | _ => rfl

theorem setq_of_length_ne {evaluator : Evaluator} {operands : Expr}
    (h : ¬ ∃ items, operands.items? = some items ∧ items.length = 2) :
    Eval.setq evaluator operands scope =
      fail (.invalidSpecialForm .malformedAssignment) := by
  unfold Eval.setq
  split
  . next hitems => exact absurd ⟨_, hitems, rfl⟩ h
  . next hitems => exact absurd ⟨_, hitems, rfl⟩ h
  . rfl

section

variable {evaluator : Evaluator} (heval : Renames r evaluator)

include heval

theorem mirrors_all (hscope : regions[scope]? = some region) {exprs : List Expr}
    (hexprs : ∀ e ∈ exprs, r.Covers regions region e) :
    StoreM.Mirrors r regions
      (fun more values values' =>
        values.length = exprs.length ∧ List.Forall₂ (r.Like more) values values')
      (Eval.all evaluator scope exprs)
      (Eval.all evaluator scope (exprs.map (r.codeIn region .item))) := by
  induction exprs generalizing regions with
  | nil => exact mirrors_pure ⟨rfl, .nil⟩
  | cons e exprs ih =>
    obtain ⟨he, hrest⟩ := List.forall_mem_cons.mp hexprs
    apply (heval _ _ _ _ hscope he).bind
    intro more value value' hle hvalue
    have hscope := getElem?_of_extends hle hscope
    apply (ih hscope fun e he => (hrest e he).mono hle).bind
    intro most values values' hle hvalues
    exact mirrors_pure ⟨congrArg Nat.succ hvalues.1, .cons (hvalue.mono hle) hvalues.2⟩

theorem mirrors_sequence (hscope : regions[scope]? = some region) {exprs : List Expr}
    (hexprs : ∀ e ∈ exprs, r.Covers regions region e) :
    StoreM.Mirrors r regions r.Like (Eval.sequence evaluator scope exprs)
      (Eval.sequence evaluator scope (exprs.map (r.codeIn region .item))) := by
  induction exprs generalizing regions with
  | nil => exact mirrors_pure (.same (List.forall_mem_nil _))
  | cons e exprs ih =>
    obtain ⟨he, hrest⟩ := List.forall_mem_cons.mp hexprs
    cases exprs with
    | nil => exact heval _ _ _ _ hscope he
    | cons next exprs =>
      apply (heval _ _ _ _ hscope he).bind
      intro more _ _ hle _
      exact ih (getElem?_of_extends hle hscope) fun e he => (hrest e he).mono hle

theorem mirrors_setq (hscope : regions[scope]? = some region) {operands : Expr}
    (hoperands : r.Covers regions region operands) :
    StoreM.Mirrors r regions r.Like (Eval.setq evaluator operands scope)
      (Eval.setq evaluator (r.codeIn region .tail operands) scope) := by
  have hcode := r.items?_codeIn_tail region operands
  by_cases hlength : ∃ items, operands.items? = some items ∧ items.length = 2
  . obtain ⟨items, hitems, hlength⟩ := hlength
    obtain ⟨target, e, rfl⟩ := List.length_eq_two.mp hlength
    have hcovers := hoperands.of_items? hitems
    rw [List.forall_mem_cons, List.forall_mem_singleton] at hcovers
    rw [hitems, Option.map_some, List.map_cons, List.map_cons, List.map_nil] at hcode
    by_cases hsymbol : ∃ name, target = .symbol name
    . obtain ⟨name, rfl⟩ := hsymbol
      rw [r.codeIn_symbol] at hcode
      rw [Eval.setq, Eval.setq, hitems, hcode]
      apply (heval _ _ _ _ hscope hcovers.2).bind
      intro more value value' hle hvalue
      have hname := hcovers.1.uses name List.mem_cons_self
      apply (mirrors_define (getElem?_of_extends hle hscope) hname hvalue).bind
      intro most _ _ hmost _
      exact mirrors_pure (hvalue.mono hmost)
    . rw [not_exists] at hsymbol
      rw [setq_of_ne_symbol hitems hsymbol,
        setq_of_ne_symbol hcode (r.codeIn_ne_symbol region hsymbol .item)]
      exact mirrors_fail rfl
  . have hlength' : ¬ ∃ items, (r.codeIn region .tail operands).items? = some items ∧
        items.length = 2 := by
      rintro ⟨items', hitems', hlength'⟩
      obtain ⟨items, hitems, rfl⟩ := Option.map_eq_some_iff.mp (hcode.symm.trans hitems')
      exact hlength ⟨items, hitems, (List.length_map _).symm.trans hlength'⟩
    rw [setq_of_length_ne hlength, setq_of_length_ne hlength']
    exact mirrors_fail rfl

theorem mirrors_applyNative (hscope : regions[scope]? = some region) (f : Native)
    {args : List Expr} (hargs : ∀ arg ∈ args, r.Covers regions region arg) :
    StoreM.Mirrors r regions r.Like (Eval.applyNative evaluator f args scope)
      (Eval.applyNative evaluator f (args.map (r.codeIn region .item)) scope) := by
  unfold Eval.applyNative
  rw [List.length_map]
  apply (mirrors_checkArity _ _ _).bind
  intro more _ _ hle _
  have hscope := getElem?_of_extends hle hscope
  apply (mirrors_all heval hscope fun arg hmem => (hargs arg hmem).mono hle).bind
  intro most values values' _ hvalues
  apply (mirrors_report _ _).bind
  intro final _ _ hfinal _
  have hresult := Like.run f.primitive (hvalues.2.imp fun _ _ => Like.mono hfinal)
  generalize f.primitive.run values = result, f.primitive.run values' = result' at hresult
  cases hresult with
  | ok hvalue => exact mirrors_pure hvalue
  | error hremark => exact mirrors_fail hremark

theorem mirrors_runBody {captured : ScopeId} {params : List String} {body : Expr}
    (henters : r.Enters regions captured params body region) {values values' : List Expr}
    (hvalues : List.Forall₂ (r.Like regions) values values')
    (hlength : params.length = values.length) :
    StoreM.Mirrors r regions r.Like (Eval.runBody evaluator captured params body values)
      (Eval.runBody evaluator captured (params.map (r.nameIn region)) (r.codeIn region .item body)
        values') := by
  intro store store' hmirrors
  have hle : regions <+: regions ++ [region] := List.prefix_append _ _
  have hinner := hmirrors.enter henters hvalues hlength
  have hscope : store.nextScope = regions.length := hmirrors.size
  have hscope' : store'.nextScope = regions.length := hmirrors.size'
  obtain ⟨more, hmore, hafter, hend⟩ :=
    heval _ _ _ _ List.getElem?_concat_length (henters.covers.mono hle) _ _ hinner
  obtain ⟨houtcome, hstore⟩ := runBody_eq evaluator captured params body values store
  obtain ⟨houtcome', hstore'⟩ := runBody_eq evaluator captured (params.map (r.nameIn region))
    (r.codeIn region .item body) values' store'
  rw [houtcome, hstore, houtcome', hstore', hscope, hscope']
  exact ⟨more, hle.trans hmore, hafter, hend⟩

theorem mirrors_apply (hscope : regions[scope]? = some region) {callable callable' args : Expr}
    (hcallable : r.Like regions callable callable') (hargs : r.Covers regions region args) :
    StoreM.Mirrors r regions r.Like (Eval.apply evaluator callable args scope)
      (Eval.apply evaluator callable' (r.codeIn region .tail args) scope) := by
  unfold Eval.apply
  rw [r.items?_codeIn_tail]
  cases hitems : args.items? with
  | none => exact mirrors_fail rfl
  | some items =>
    have hitems := hargs.of_items? hitems
    cases callable with
    | native f =>
      cases hcallable
      exact mirrors_applyNative heval hscope f hitems
    | closure serial captured params body =>
      obtain ⟨serial', around, rfl, henters⟩ := hcallable.of_closure
      change StoreM.Mirrors r regions r.Like (Eval.applyClosure _ _ _ _ _ _)
        (Eval.applyClosure _ _ _ _ _ _)
      unfold Eval.applyClosure
      rw [List.length_map, List.length_map]
      apply (mirrors_checkArity _ _ _).bind
      intro more _ _ hle hadmits
      have hscope := getElem?_of_extends hle hscope
      apply (mirrors_all heval hscope fun arg hmem => (hitems arg hmem).mono hle).bind
      intro most values values' hmost hvalues
      have henters := henters.mono (hle.trans hmost)
      exact mirrors_runBody heval henters hvalues.2 (hvalues.1.trans hadmits).symm
    | _ => cases hcallable <;> exact mirrors_fail rfl

theorem mirrors_callInNewScope (hscope : regions[scope]? = some region) {operator args : Expr}
    (hoperator : r.Covers regions region operator) (hargs : r.Covers regions region args) :
    StoreM.Mirrors r regions r.Like (Eval.callInNewScope evaluator operator args scope)
      (Eval.callInNewScope evaluator (r.codeIn region .item operator) (r.codeIn region .tail args)
        scope) := by
  unfold Eval.callInNewScope
  apply (heval _ _ _ _ hscope hoperator).bind
  intro more callable callable' hle hcallable
  rw [hcallable.isCallable_eq]
  split
  . apply (mirrors_enclose (getElem?_of_extends hle hscope)).bind
    rintro most inner _ hmost ⟨rfl, hinner⟩
    exact mirrors_apply heval hinner (hcallable.mono hmost) (hargs.mono (hle.trans hmost))
  . exact mirrors_fail rfl

theorem mirrors_callInPlace (hscope : regions[scope]? = some region)
    {operator operator' args : Expr}
    (hoperator : StoreM.Mirrors r regions r.Like (evaluator operator scope)
      (evaluator operator' scope))
    (hargs : r.Covers regions region args) :
    StoreM.Mirrors r regions r.Like (Eval.callInPlace evaluator operator args scope)
      (Eval.callInPlace evaluator operator' (r.codeIn region .tail args) scope) := by
  unfold Eval.callInPlace
  apply hoperator.bind
  intro more callable callable' hle hcallable
  exact mirrors_apply heval (getElem?_of_extends hle hscope) hcallable (hargs.mono hle)

theorem mirrors_call (hscope : regions[scope]? = some region) {operator operands : Expr}
    (h : r.Covers regions region (.cons operator operands)) :
    StoreM.Mirrors r regions r.Like (Eval.step evaluator (.cons operator operands) scope)
      (Eval.step evaluator (r.codeIn region .item (.cons operator operands)) scope) := by
  obtain ⟨hoperator, hoperands⟩ := covers_cons.mp h
  obtain hcode | ⟨hcode, rfl, hrebinds⟩ := r.codeIn_cons region operator operands
  . rw [hcode]
    change StoreM.Mirrors r regions r.Like (Eval.call evaluator operator operands scope)
      (Eval.call evaluator (r.codeIn region .item operator) (r.codeIn region .tail operands) scope)
    cases operator with
    | symbol name =>
      -- The names of special forms are not renamed, and no other name becomes one of them.
      have hlambda : r.nameIn region name = "lambda" ↔ name = "lambda" :=
        nameIn_eq_iff List.mem_cons_self
      have hsetq : r.nameIn region name = "setq" ↔ name = "setq" :=
        nameIn_eq_iff (List.mem_cons_of_mem _ List.mem_cons_self)
      have hcall := mirrors_callInNewScope heval hscope hoperator hoperands
      rw [r.codeIn_symbol] at hcall ⊢
      simp only [Eval.call, hlambda, hsetq]
      split
      . exact mirrors_operands hscope hoperands
      . split
        . exact mirrors_setq heval hscope hoperands
        . exact hcall
    | cons car cdr =>
      obtain hcar | ⟨hcar, _, _⟩ := r.codeIn_cons region car cdr
      all_goals
        have hcall := mirrors_callInPlace heval hscope (heval _ _ _ _ hscope hoperator) hoperands
        rw [hcar] at hcall ⊢
        exact hcall
    | sequence exprs =>
      have hcall := mirrors_callInNewScope heval hscope hoperator hoperands
      rw [r.codeIn_sequence] at hcall ⊢
      exact hcall
    | _ => cases region <;> exact mirrors_callInNewScope heval hscope hoperator hoperands
  . rw [hcode]
    obtain ⟨params, body, hform, hlists⟩ := Expr.exists_of_rebinds hrebinds
    cases hform
    exact mirrors_rebinding hscope hoperands hlists

theorem mirrors_step (hscope : regions[scope]? = some region) {e : Expr}
    (h : r.Covers regions region e) :
    StoreM.Mirrors r regions r.Like (Eval.step evaluator e scope)
      (Eval.step evaluator (r.codeIn region .item e) scope) := by
  cases e with
  | symbol name =>
    rw [r.codeIn_symbol]
    exact mirrors_lookup hscope (h.uses name List.mem_cons_self)
  | quoted inner =>
    rw [r.codeIn_quoted]
    exact mirrors_pure (.same h.outside)
  | sequence exprs =>
    rw [r.codeIn_sequence]
    exact mirrors_sequence heval hscope (covers_sequence.mp h)
  | cons operator operands => exact mirrors_call heval hscope h
  | _ => cases region <;> exact mirrors_pure (.same h.outside)

end

theorem renames_evaluate (r : Renaming) (depth : Nat) : Renames r (evaluate depth) := by
  induction depth with
  | zero =>
    intro regions region scope e _ _ store store' hmirrors
    exact ⟨regions, List.prefix_rfl, hmirrors, .outOfFuel⟩
  | succ depth ih =>
    intro regions region scope e hscope h
    exact mirrors_step ih hscope h

theorem mirrors_lambdaForm (hscope : regions[scope]? = some .outside) {params body : List Expr}
    (h : r.Covers regions .outside (.lambdaForm params body)) (hold : .symbol r.old ∈ params)
    (hnew : r.new ∉ (Expr.lambdaForm params body).symbols) (depth : Nat) :
    StoreM.Mirrors r regions r.Like (evaluate depth (.lambdaForm params body) scope)
      (evaluate depth (.lambdaForm (params.map (r.rename .item)) (body.map (r.rename .item)))
        scope) := by
  have hinside : r.Covers regions .inside (.lambdaForm params body) := by
    refine ⟨h.outside, ?_⟩
    rintro name hname
    right
    rintro rfl
    exact hnew hname
  obtain ⟨hparams, hbody⟩ := covers_cons.mp (covers_cons.mp hinside).2
  cases depth with
  | zero =>
    intro store store' hmirrors
    exact ⟨regions, List.prefix_rfl, hmirrors, .outOfFuel⟩
  | succ depth =>
    change StoreM.Mirrors r regions r.Like
      (Eval.lambda (.cons (.ofList params) (.ofList body)) scope)
      (Eval.lambda (.cons (.ofList (params.map (r.rename .item)))
        (.ofList (body.map (r.rename .item)))) scope)
    have hnames : SameKind (fun names names' => names' = names.map (r.nameIn .inside))
        (parameters (.ofList params)) (parameters (.ofList (params.map (r.rename .item)))) := by
      rw [parameters, parameters, Expr.items?_ofList, Expr.items?_ofList]
      exact paramNames_codeIn r .inside params
    apply mirrors_lambda hnames
    . rw [Expr.items?_ofList, Expr.items?_ofList]
      rfl
    . intro names exprs hnames hexprs
      have hlisted := (mem_parameters_iff hnames r.old).mpr (Expr.lists_ofList.mpr hold)
      apply enters_of_mem hscope hlisted (fun _ => rfl)
      . exact hparams.parameters hnames
      . exact hbody.sequence hexprs

/--
The names of parameters do not matter. Another name that is not yet used in a function may be
written for a parameter of it, wherever this is not quoted and no inner function has a parameter of
the same name. At every depth a call of the function then gives the same answer: the same printed
value, an error of the same kind, which its remark tells, or none. The store is closed, as it is in
every history, and closures in the code were made in scopes of it; parsed code has none.
-/
theorem parameter_renamed (r : Renaming) {store : Store} (hstore : store.Closed)
    (hscope : scope < store.frames.size) {params body args : List Expr}
    (hwithin : (Expr.cons (.lambdaForm params body) (.ofList args)).Within store.frames.size)
    (hold : .symbol r.old ∈ params) (hnew : r.new ∉ (Expr.lambdaForm params body).symbols)
    (depth : Nat) :
    let renamed := Expr.lambdaForm (params.map (r.rename .item)) (body.map (r.rename .item))
    (evaluate depth (.cons renamed (.ofList args)) scope store).outcome.answer? Report.evalRemark =
      (evaluate depth (.cons (.lambdaForm params body) (.ofList args)) scope store).outcome.answer?
        Report.evalRemark := by
  intro renamed
  let regions := List.replicate store.frames.size Region.outside
  have hmirrors : r.Mirrors regions store store := .refl hstore
  have hregion : regions[scope]? = some .outside := List.getElem?_replicate_of_lt hscope
  have hcovers : r.Covers regions .outside (.cons (.lambdaForm params body) (.ofList args)) := by
    refine ⟨?_, fun _ _ => .inl rfl⟩
    exact fun captured hmem => List.getElem?_replicate_of_lt (hwithin captured hmem)
  obtain ⟨hform, hargs⟩ := covers_cons.mp hcovers
  cases depth with
  | zero => rfl
  | succ depth =>
    have hcall : StoreM.Mirrors r regions r.Like
        (Eval.callInPlace (evaluate depth) (.lambdaForm params body) (.ofList args) scope)
        (Eval.callInPlace (evaluate depth) renamed (.ofList args) scope) :=
      mirrors_callInPlace (renames_evaluate r depth) hregion
        (mirrors_lambdaForm hregion hform hold hnew depth) hargs
    obtain ⟨more, _, _, hend⟩ := hcall store store hmirrors
    exact hend.answer?_eq

theorem parameter_renamed_shadowed :
    let r : Renaming := ⟨"x", "z", by decide, by decide⟩
    let params := [Expr.symbol "x"]
    let body := [Expr.ofList [.symbol "setq", .symbol "x", .quoted (.symbol "b")],
      .ofList [.symbol "list", .symbol "x", .quoted (.symbol "x"),
        .ofList [.lambdaForm [.symbol "x"] [.symbol "x"], .quoted (.symbol "c")]]]
    let args := [Expr.quoted (.symbol "a")]
    let renamed := Expr.lambdaForm (params.map (r.rename .item)) (body.map (r.rename .item))
    let store := Store.empty.addGlobal
    parse "((lambda (x) (setq x 'b) (list x 'x ((lambda (x) x) 'c))) 'a)" =
      .ok [.cons (.lambdaForm params body) (.ofList args)] ∧
    parse "((lambda (z) (setq z 'b) (list z 'x ((lambda (x) x) 'c))) 'a)" =
      .ok [.cons renamed (.ofList args)] ∧
    (evaluate 7 (.cons (.lambdaForm params body) (.ofList args)) 0 store).outcome.answer?
      Report.evalRemark = some (.ok "(b x c)") ∧
    (evaluate 7 (.cons renamed (.ofList args)) 0 store).outcome.answer? Report.evalRemark =
      (evaluate 7 (.cons (.lambdaForm params body) (.ofList args)) 0 store).outcome.answer?
        Report.evalRemark := by
  intro r params body args renamed store
  have hparse : parse "((lambda (x) (setq x 'b) (list x 'x ((lambda (x) x) 'c))) 'a)" =
      .ok [.cons (.lambdaForm params body) (.ofList args)] := by
    cbv
  have hphrase := isPhrase_of_parse hparse _ List.mem_cons_self
  have hold : Expr.symbol r.old ∈ params := List.mem_cons_self
  have hnew : r.new ∉ (Expr.lambdaForm params body).symbols := by decide
  refine ⟨hparse, by cbv, by cbv, ?_⟩
  exact parameter_renamed r Store.closed_empty.addGlobal (by decide) (hphrase.within _) hold hnew 7

end Eval

end ChatLisp
