import ChatLisp.Proofs.Eval.Depth
import ChatLisp.Proofs.Scope.Pairing

/-!
This module contains the agreement of evaluations in paired stores: expressions that are alike have
like values, or fail with the same message, and the stores are still paired afterwards. In scopes
that are linked but not twins this holds of expressions that define nothing there.
-/

namespace ChatLisp

namespace Expr

theorem IsElem.alike {e : Expr} (h : e.IsElem) (names : Set String)
    (link : ScopeId → ScopeId → Prop) :
    Alike names link e e := by
  induction e with
  | cons car cdr hcar hcdr => exact .cons (hcar h.1) (hcdr h.2)
  | quoted inner ih =>
    obtain rfl | h := h
    . exact .quoted .dot
    . exact .quoted (ih h)
  | closure _ _ _ _ => exact absurd h id
  | sequence _ => exact absurd h id
  | _ => constructor

theorem IsPhrase.alike {e : Expr} (h : e.IsPhrase) (names : Set String)
    (link : ScopeId → ScopeId → Prop) :
    Alike names link e e := by
  obtain rfl | h := h
  . exact .dot
  . exact h.alike names link

/--
An expression that was read from a text and defines nothing in the scope of its evaluation.
-/
structure Quiet (e : Expr) : Prop where
  isPhrase : e.IsPhrase
  exposed_eq : e.exposed = []

namespace Quiet

theorem isElem_cons {operator operands : Expr} (h : (cons operator operands).Quiet) :
    operator.IsElem ∧ operands.IsElem :=
  h.isPhrase.resolve_left nofun

theorem operator {operator operands : Expr} (h : (cons operator operands).Quiet) :
    operator.Quiet := by
  refine ⟨.inr h.isElem_cons.1, ?_⟩
  cases operator with
  | cons operator args =>
    have hexposed := h.exposed_eq
    rw [exposed, List.append_eq_nil_iff] at hexposed
    exact hexposed.1
  | _ => simp [exposed]

theorem operands {operator args operands : Expr} {items : List Expr}
    (h : (cons (cons operator args) operands).Quiet) (hitems : operands.items? = some items) :
    ∀ e ∈ items, e.Quiet := by
  intro e he
  have hexposed := h.exposed_eq
  rw [exposed, List.append_eq_nil_iff, eq_ofList_of_items? hitems, exposedByAll_ofList,
    List.flatMap_eq_nil_iff] at hexposed
  exact ⟨.inr (h.isElem_cons.2.of_mem_items hitems he), hexposed.2 e he⟩

theorem items?_ne_setq {operands : Expr} (h : (cons (symbol "setq") operands).Quiet)
    (name : String) (value : Expr) :
    operands.items? ≠ some [symbol name, value] := by
  intro hitems
  have hexposed := h.exposed_eq
  rw [exposed, if_pos rfl, eq_ofList_of_items? hitems] at hexposed
  simp [exposedBySetq] at hexposed

end Quiet

end Expr

/--
Both ends are values that are related, or both are errors with the same message, or neither
computation came to an end.
-/
inductive Outcome.Rel {α β : Type} (R : α → β → Prop) :
    Outcome EvalError α → Outcome EvalError β → Prop
  | value {a : α} {b : β} : R a b → Rel R (.value a) (.value b)
  | error {e e' : EvalError} : e'.message = e.message → Rel R (.error e) (.error e')
  | outOfFuel : Rel R .outOfFuel .outOfFuel

theorem Outcome.Rel.answer?_eq {p : Pairing} {outcome outcome' : Outcome EvalError Expr}
    (h : Outcome.Rel p.Alike outcome outcome') :
    outcome'.answer? EvalError.message = outcome.answer? EvalError.message := by
  cases h with
  | value halike => rw [Outcome.answer?, Outcome.answer?, halike.print_eq]
  | error hmessage => rw [Outcome.answer?, Outcome.answer?, hmessage]
  | outOfFuel => rfl

namespace StoreM

variable {α α' β β' : Type} {p : Pairing} {R : Pairing → α → α' → Prop}
  {S : Pairing → β → β' → Prop}

/--
From paired stores on the actions end alike, and they leave stores that are paired in an extension
of the pairing. What it means that their values are alike may depend on this extension.
-/
def Agree (p : Pairing) (R : Pairing → α → α' → Prop) (action : StoreM EvalError α)
    (action' : StoreM EvalError α') : Prop :=
  ∀ store store', store.Paired p store' →
    ∃ q, p.Extends q ∧ (action store).store.Paired q (action' store').store ∧
      Outcome.Rel (R q) (action store).outcome (action' store').outcome

theorem agree_pure {a : α} {a' : α'} (h : R p a a') :
    Agree p R (pure a) (pure a') := by
  intro store store' hpaired
  exact ⟨p, .refl p, hpaired, .value h⟩

theorem agree_fail {e e' : EvalError} (h : e'.message = e.message) :
    Agree p R (fail e) (fail e') := by
  intro store store' hpaired
  exact ⟨p, .refl p, hpaired, .error h⟩

theorem agree_report (event event' : Event) :
    Agree p (fun _ _ _ => True) (report event) (report event') := by
  intro store store' hpaired
  exact ⟨p, .refl p, hpaired, .value trivial⟩

theorem agree_read {f : Store → α} {f' : Store → α'}
    (h : ∀ store store', store.Paired p store' → R p (f store) (f' store')) :
    Agree p R (read f) (read f') := by
  intro store store' hpaired
  exact ⟨p, .refl p, hpaired, .value (h store store' hpaired)⟩

theorem Agree.bind {action : StoreM EvalError α} {action' : StoreM EvalError α'}
    {f : α → StoreM EvalError β} {f' : α' → StoreM EvalError β'}
    (haction : Agree p R action action')
    (hf : ∀ q a a', p.Extends q → R q a a' → Agree q S (f a) (f' a')) :
    Agree p S (action >>= f) (action' >>= f') := by
  intro store store' hpaired
  obtain ⟨q, hpq, hpaired, hend⟩ := haction store store' hpaired
  rw [store_bind, store_bind, outcome_bind, outcome_bind]
  generalize (action store).outcome = outcome, (action' store').outcome = outcome' at hend
  cases hend with
  | value hvalue =>
    obtain ⟨r, hqr, hpaired, hend⟩ := hf q _ _ hpq hvalue _ _ hpaired
    exact ⟨r, hpq.trans hqr, hpaired, hend⟩
  | error hmessage => exact ⟨q, hpq, hpaired, .error hmessage⟩
  | outOfFuel => exact ⟨q, hpq, hpaired, .outOfFuel⟩

end StoreM

/--
The expressions can be evaluated in the two scopes with the same result: they are alike and use only
names that are looked up, and what they define in one scope is defined in the other.
-/
structure Pairing.Ready (p : Pairing) (scope scope' : ScopeId) (e e' : Expr) : Prop where
  link : p.link scope scope'
  alike : p.Alike e e'
  within : ∀ name ∈ e.symbols, name ∈ p.names
  twin_or_quiet : p.twin scope scope' ∨ e.Quiet

theorem Pairing.ready_of_alike {p : Pairing} {scope scope' : ScopeId} {exprs exprs' : List Expr}
    (hlink : p.link scope scope') (halike : List.Forall₂ p.Alike exprs exprs')
    (hwithin : ∀ e ∈ exprs, ∀ name ∈ e.symbols, name ∈ p.names)
    (hquiet : p.twin scope scope' ∨ ∀ e ∈ exprs, e.Quiet) :
    List.Forall₂ (p.Ready scope scope') exprs exprs' := by
  induction halike with
  | nil => exact .nil
  | cons he _ ih =>
    simp only [List.mem_cons, forall_eq_or_imp] at hwithin hquiet
    have hfirst : p.Ready scope scope' _ _ := ⟨hlink, he, hwithin.1, hquiet.imp_right And.left⟩
    exact .cons hfirst (ih hwithin.2 (hquiet.imp_right And.right))

theorem Pairing.Ready.of_sequence {p : Pairing} {scope scope' : ScopeId} {exprs exprs' : List Expr}
    (h : p.Ready scope scope' (.sequence exprs) (.sequence exprs')) :
    List.Forall₂ (p.Ready scope scope') exprs exprs' := by
  apply ready_of_alike h.link (Expr.Alike.sequence_iff.mp h.alike)
  . intro e he name hname
    apply h.within
    rw [Expr.symbols_sequence]
    exact List.mem_flatMap_of_mem he hname
  . left
    apply h.twin_or_quiet.resolve_right
    intro hquiet
    exact hquiet.isPhrase.resolve_left nofun

theorem Pairing.Extends.ready {p q : Pairing} (hpq : p.Extends q) {scope scope' : ScopeId}
    {e e' : Expr} (h : p.Ready scope scope' e e') : q.Ready scope scope' e e' where
  link := hpq.link h.link
  alike := hpq.alike h.alike
  within := by
    rw [hpq.names_eq]
    exact h.within
  twin_or_quiet := h.twin_or_quiet.imp_left hpq.twin

namespace Eval

open StoreM

/--
The evaluator does not tell paired stores apart.
-/
def Agrees (evaluator : Evaluator) : Prop :=
  ∀ p scope scope' e e', p.Ready scope scope' e e' →
    Agree p Pairing.Alike (evaluator e scope) (evaluator e' scope')

variable {p : Pairing} {scope scope' : ScopeId}

theorem agree_lookup {name : String} (hlink : p.link scope scope') (hname : name ∈ p.names) :
    Agree p Pairing.Alike (Eval.lookup name scope) (Eval.lookup name scope') := by
  unfold Eval.lookup
  apply Agree.bind (R := fun q => Option.Rel q.Alike)
  . apply agree_read
    intro store store' hpaired
    exact hpaired.lookup? hlink hname
  . intro q value value' _ hvalue
    cases hvalue with
    | some hvalue => exact agree_pure hvalue
    | none => exact agree_fail rfl

theorem agree_define (htwin : p.twin scope scope') (name : String) {value value' : Expr}
    (hvalue : p.Alike value value') :
    Agree p (fun _ _ _ => True) (Eval.define name value scope)
      (Eval.define name value' scope') := by
  unfold Eval.define
  apply (agree_report _ _).bind
  intro q _ _ hpq _ store store' hpaired
  exact ⟨q, .refl q, hpaired.define (hpq.twin htwin) name (hpq.alike hvalue), .value trivial⟩

theorem agree_defineAll (htwin : p.twin scope scope') (params : List String)
    {values values' : List Expr} (hvalues : List.Forall₂ p.Alike values values') :
    Agree p (fun _ _ _ => True) (Eval.defineAll scope (params.zip values))
      (Eval.defineAll scope' (params.zip values')) := by
  induction params generalizing p values values' with
  | nil => exact agree_pure trivial
  | cons name params ih =>
    cases hvalues with
    | nil => exact agree_pure trivial
    | cons hvalue hvalues =>
      apply (agree_define htwin name hvalue).bind
      intro q _ _ hpq _
      exact ih (hpq.twin htwin) (hvalues.imp fun _ _ => hpq.alike)

theorem agree_enclose (hlink : p.link scope scope') :
    Agree p Pairing.twin (Eval.enclose scope) (Eval.enclose scope') := by
  intro store store' hpaired
  obtain ⟨q, hpq, hpaired, htwin⟩ := hpaired.enclose hlink
  exact ⟨q, hpq, hpaired, .value htwin⟩

theorem agree_checkArity (callee : Callee) (arity : Arity) (found : Nat) :
    Agree p (fun _ _ _ => True) (Eval.checkArity callee arity found)
      (Eval.checkArity callee arity found) := by
  unfold Eval.checkArity
  repeat' split
  . exact agree_pure trivial
  . exact agree_fail rfl
  . exact agree_pure trivial

theorem agree_lambda {operands operands' : Expr} (hlink : p.link scope scope')
    (halike : p.Alike operands operands') (hwithin : ∀ name ∈ operands.symbols, name ∈ p.names) :
    Agree p Pairing.Alike (Eval.lambda operands scope) (Eval.lambda operands' scope') := by
  cases halike with
  | @cons params params' body body' hparams hbody =>
    have hitems := hparams.items?
    have hprint := hparams.print_eq
    simp only [Eval.lambda]
    generalize params.items? = items, params'.items? = items' at hitems
    cases hitems with
    | none => exact agree_fail (congrArg (fun text => _ ++ (_ ++ text)) hprint)
    | some hitems =>
      rename_i items items'
      have hnames := paramNames_alike hitems
      dsimp only
      generalize paramNames items = names, paramNames items' = names' at hnames
      cases hnames with
      | error hmessage => exact agree_fail hmessage
      | ok heq =>
        subst heq
        have hexprs := hbody.items?
        have hsymbols : ∀ exprs, body.items? = some exprs →
            ∀ name ∈ (Expr.sequence exprs).symbols, name ∈ p.names := by
          intro exprs hexprs name hname
          rw [Expr.symbols_sequence, List.mem_flatMap] at hname
          obtain ⟨e, he, hname⟩ := hname
          apply hwithin
          exact List.mem_append_right _ (Expr.mem_symbols_of_items? hexprs he hname)
        dsimp only
        generalize body.items? = exprs, body'.items? = exprs' at hexprs hsymbols
        cases hexprs with
        | none => exact agree_fail rfl
        | some hexprs =>
          intro store store' hpaired
          have hclosure := Expr.Alike.sequence_iff.mpr hexprs
          exact ⟨p, .refl p, hpaired.count _ _, .value (.closure hlink hclosure (hsymbols _ rfl))⟩
  | _ => exact agree_fail rfl

section

variable {evaluator : Evaluator} (hagrees : Agrees evaluator)

include hagrees

theorem agree_all {exprs exprs' : List Expr}
    (h : List.Forall₂ (p.Ready scope scope') exprs exprs') :
    Agree p (fun q => List.Forall₂ q.Alike) (Eval.all evaluator scope exprs)
      (Eval.all evaluator scope' exprs') := by
  induction exprs generalizing p exprs' with
  | nil =>
    cases h
    exact agree_pure .nil
  | cons e exprs ih =>
    cases h with
    | cons he hexprs =>
      apply (hagrees _ _ _ _ _ he).bind
      intro q value value' hpq hvalue
      apply (ih (hexprs.imp fun _ _ => hpq.ready)).bind
      intro r values values' hqr hvalues
      exact agree_pure (.cons (hqr.alike hvalue) hvalues)

theorem agree_sequence {exprs exprs' : List Expr}
    (h : List.Forall₂ (p.Ready scope scope') exprs exprs') :
    Agree p Pairing.Alike (Eval.sequence evaluator scope exprs)
      (Eval.sequence evaluator scope' exprs') := by
  fun_induction Eval.sequence evaluator scope exprs generalizing p exprs' with
  | case1 =>
    cases h
    exact agree_pure .nil
  | case2 e =>
    cases h with
    | cons he hexprs =>
      cases hexprs
      exact hagrees _ _ _ _ _ he
  | case3 e exprs hexprs ih =>
    cases h with
    | cons he hmore =>
      rw [Eval.sequence]
      . apply (hagrees _ _ _ _ _ he).bind
        intro q _ _ hpq _
        exact ih (hmore.imp fun _ _ => hpq.ready)
      . rintro rfl
        cases hmore
        exact hexprs rfl

theorem agree_setq {operands operands' : Expr} (hlink : p.link scope scope')
    (halike : p.Alike operands operands') (hwithin : ∀ name ∈ operands.symbols, name ∈ p.names)
    (hquiet : p.twin scope scope' ∨ (Expr.cons (.symbol "setq") operands).Quiet) :
    Agree p Pairing.Alike (Eval.setq evaluator operands scope)
      (Eval.setq evaluator operands' scope') := by
  have hitems := halike.items?
  unfold Eval.setq
  generalize hlist : operands.items? = items, operands'.items? = items' at hitems
  match hitems with
  | .none => exact agree_fail rfl
  | .some .nil => exact agree_fail rfl
  | .some (.cons _ .nil) =>
    simp only
    exact agree_fail rfl
  | .some (.cons htarget (.cons hvalue .nil)) =>
    rename_i target value target' value'
    have hprint := htarget.print_eq
    cases htarget with
    | symbol name =>
      have hready : p.Ready scope scope' value value' := by
        constructor
        . exact hlink
        . exact hvalue
        . intro asked hasked
          apply hwithin
          exact Expr.mem_symbols_of_items? hlist (by simp) hasked
        . refine hquiet.imp_right ?_
          intro hquiet
          exact absurd hlist (hquiet.items?_ne_setq name value)
      apply (hagrees _ _ _ _ _ hready).bind
      intro q value value' hpq hvalue
      -- Here something is defined, so the scopes are not merely linked.
      have htwin : q.twin scope scope' := by
        refine hpq.twin (hquiet.resolve_right ?_)
        intro hquiet
        exact absurd hlist (hquiet.items?_ne_setq name _)
      apply (agree_define htwin name hvalue).bind
      intro r _ _ hqr _
      exact agree_pure (hqr.alike hvalue)
    | _ => exact agree_fail (congrArg (_ ++ ·) hprint)
  | .some (.cons _ (.cons _ (.cons _ _))) =>
    simp only
    exact agree_fail rfl

theorem agree_applyNative (f : Native) {args args' : List Expr}
    (h : List.Forall₂ (p.Ready scope scope') args args') :
    Agree p Pairing.Alike (Eval.applyNative evaluator f args scope)
      (Eval.applyNative evaluator f args' scope') := by
  unfold Eval.applyNative
  rw [h.length_eq]
  apply (agree_checkArity _ _ _).bind
  intro q _ _ hpq _
  apply (agree_all hagrees (h.imp fun _ _ => hpq.ready)).bind
  intro r values values' _ hvalues
  apply (agree_report _ _).bind
  intro s _ _ hrs _
  have hresult := f.primitive.run_alike (hvalues.imp fun _ _ => hrs.alike)
  generalize f.primitive.run values = result, f.primitive.run values' = result' at hresult
  cases hresult with
  | ok hvalue => exact agree_pure hvalue
  | error hmessage => exact agree_fail hmessage

theorem agree_runBody {captured captured' : ScopeId} (hlink : p.link captured captured')
    (params : List String) {body body' : Expr} (hbody : p.Alike body body')
    (hwithin : ∀ name ∈ body.symbols, name ∈ p.names) {values values' : List Expr}
    (hvalues : List.Forall₂ p.Alike values values') :
    Agree p Pairing.Alike (Eval.runBody evaluator captured params body values)
      (Eval.runBody evaluator captured' params body' values') := by
  unfold Eval.runBody
  apply (agree_enclose hlink).bind
  intro q frame frame' hpq htwin
  apply (agree_defineAll htwin params (hvalues.imp fun _ _ => hpq.alike)).bind
  intro r _ _ hqr _
  apply (agree_report _ _).bind
  intro s _ _ hrs _
  have hps := hpq.trans (hqr.trans hrs)
  have htwin := hrs.twin (hqr.twin htwin)
  apply hagrees
  constructor
  . exact s.link_of_twin htwin
  . exact hps.alike hbody
  . rw [hps.names_eq]
    exact hwithin
  . exact .inl htwin

theorem agree_applyClosure {captured captured' : ScopeId} (hlink : p.link captured captured')
    (params : List String) {body body' : Expr} (hbody : p.Alike body body')
    (hwithin : ∀ name ∈ body.symbols, name ∈ p.names) {args args' : List Expr}
    (h : List.Forall₂ (p.Ready scope scope') args args') :
    Agree p Pairing.Alike (Eval.applyClosure evaluator captured params body args scope)
      (Eval.applyClosure evaluator captured' params body' args' scope') := by
  unfold Eval.applyClosure
  rw [h.length_eq]
  apply (agree_checkArity _ _ _).bind
  intro q _ _ hpq _
  apply (agree_all hagrees (h.imp fun _ _ => hpq.ready)).bind
  intro r values values' hqr hvalues
  have hpr := hpq.trans hqr
  apply agree_runBody hagrees (hpr.link hlink) params (hpr.alike hbody) _ hvalues
  rw [hpr.names_eq]
  exact hwithin

theorem agree_apply {callable callable' args args' : Expr} (hlink : p.link scope scope')
    (hcallable : p.Alike callable callable') (hargs : p.Alike args args')
    (hwithin : ∀ name ∈ args.symbols, name ∈ p.names)
    (hquiet : p.twin scope scope' ∨ ∀ items, args.items? = some items → ∀ e ∈ items, e.Quiet) :
    Agree p Pairing.Alike (Eval.apply evaluator callable args scope)
      (Eval.apply evaluator callable' args' scope') := by
  have hitems := hargs.items?
  have hprint := hargs.print_eq
  unfold Eval.apply
  generalize hlist : args.items? = items, args'.items? = items' at hitems
  cases hitems with
  | none => exact agree_fail (congrArg (_ ++ ·) hprint)
  | some hitems =>
    rename_i items items'
    have hready : List.Forall₂ (p.Ready scope scope') items items' := by
      apply Pairing.ready_of_alike hlink hitems
      . intro e he name hname
        exact hwithin name (Expr.mem_symbols_of_items? hlist he hname)
      . refine hquiet.imp_right ?_
        intro hquiet
        exact hquiet items hlist
    have hprint := hcallable.print_eq
    cases hcallable with
    | native f => exact agree_applyNative hagrees f hready
    | closure hscope hbody hsymbols =>
      exact agree_applyClosure hagrees hscope _ hbody hsymbols hready
    | _ => exact agree_fail (congrArg (_ ++ ·) hprint)

theorem agree_callInNewScope {operator operator' args args' : Expr}
    (hoperator : p.Ready scope scope' operator operator') (hargs : p.Alike args args')
    (hwithin : ∀ name ∈ args.symbols, name ∈ p.names) :
    Agree p Pairing.Alike (Eval.callInNewScope evaluator operator args scope)
      (Eval.callInNewScope evaluator operator' args' scope') := by
  unfold Eval.callInNewScope
  apply (hagrees _ _ _ _ _ hoperator).bind
  intro q callable callable' hpq hcallable
  rw [hcallable.isCallable_eq]
  by_cases hyes : callable.isCallable
  . rw [if_pos hyes, if_pos hyes]
    apply (agree_enclose (hpq.link hoperator.link)).bind
    intro r inner inner' hqr htwin
    have hpr := hpq.trans hqr
    -- The new scopes are twins even if those around them are not.
    -- So the arguments may define names.
    apply agree_apply hagrees (r.link_of_twin htwin) (hqr.alike hcallable) (hpr.alike hargs)
    . rw [hpr.names_eq]
      exact hwithin
    . exact .inl htwin
  . rw [if_neg hyes, if_neg hyes]
    exact agree_fail (congrArg (_ ++ ·) hcallable.print_eq)

theorem agree_callInPlace {operator operator' args args' : Expr}
    (hoperator : p.Ready scope scope' operator operator') (hargs : p.Alike args args')
    (hwithin : ∀ name ∈ args.symbols, name ∈ p.names)
    (hquiet : p.twin scope scope' ∨ ∀ items, args.items? = some items → ∀ e ∈ items, e.Quiet) :
    Agree p Pairing.Alike (Eval.callInPlace evaluator operator args scope)
      (Eval.callInPlace evaluator operator' args' scope') := by
  unfold Eval.callInPlace
  apply (hagrees _ _ _ _ _ hoperator).bind
  intro q callable callable' hpq hcallable
  apply agree_apply hagrees (hpq.link hoperator.link) hcallable (hpq.alike hargs)
  . rw [hpq.names_eq]
    exact hwithin
  . exact hquiet.imp_left hpq.twin

theorem agree_call {operator operator' operands operands' : Expr}
    (hoperator : p.Alike operator operator') (hoperands : p.Alike operands operands')
    (hready : p.Ready scope scope' (.cons operator operands) (.cons operator' operands')) :
    Agree p Pairing.Alike (Eval.call evaluator operator operands scope)
      (Eval.call evaluator operator' operands' scope') := by
  have hsymbols := hready.within
  simp only [Expr.symbols, List.mem_append] at hsymbols
  have hwithin : ∀ name ∈ operands.symbols, name ∈ p.names :=
    fun name hname => hsymbols name (.inr hname)
  have hoperator_ready : p.Ready scope scope' operator operator' := by
    constructor
    . exact hready.link
    . exact hoperator
    . exact fun name hname => hsymbols name (.inl hname)
    . exact hready.twin_or_quiet.imp_right Expr.Quiet.operator
  unfold Eval.call
  cases hoperator with
  | symbol name =>
    dsimp only
    split
    . exact agree_lambda hready.link hoperands hwithin
    . split
      . next hname =>
        subst hname
        exact agree_setq hagrees hready.link hoperands hwithin hready.twin_or_quiet
      . exact agree_callInNewScope hagrees hoperator_ready hoperands hwithin
  | cons _ _ =>
    apply agree_callInPlace hagrees hoperator_ready hoperands hwithin
    refine hready.twin_or_quiet.imp_right ?_
    intro hquiet items hitems
    exact hquiet.operands hitems
  | _ => exact agree_callInNewScope hagrees hoperator_ready hoperands hwithin

theorem agree_step {e e' : Expr} (hready : p.Ready scope scope' e e') :
    Agree p Pairing.Alike (Eval.step evaluator e scope) (Eval.step evaluator e' scope') := by
  have halike := hready.alike
  unfold Eval.step
  cases halike with
  | symbol name => exact agree_lookup hready.link (hready.within name List.mem_cons_self)
  | quoted hinner => exact agree_pure hinner
  | emptySequence => exact agree_sequence hagrees hready.of_sequence
  | sequence _ _ => exact agree_sequence hagrees hready.of_sequence
  | cons hcar hcdr => exact agree_call hagrees hcar hcdr hready
  | _ => exact agree_pure hready.alike

end

theorem agrees_evaluate (depth : Nat) : Agrees (evaluate depth) := by
  induction depth with
  | zero =>
    intro p scope scope' e e' _ store store' hpaired
    exact ⟨p, .refl p, hpaired, .outOfFuel⟩
  | succ depth ih =>
    intro p scope scope' e e' hready
    exact agree_step ih hready

end Eval

end ChatLisp
