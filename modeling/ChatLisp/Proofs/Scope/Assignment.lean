import ChatLisp.Program
import ChatLisp.Proofs.Expr.Readable
import ChatLisp.Proofs.Scope.Isolation

/-!
This module contains the names that a program assigns. They can be told from its text: an evaluation
that succeeds binds all of them in its own scope and no others, and one that fails binds some of
them.
-/

namespace ChatLisp

namespace Expr

mutual

/--
The names that an evaluation of the expression assigns in its own scope, in the order in which it
does. The operands of a call are evaluated in this scope only if the operator is a cons cell.
-/
def exposed : Expr → List String
  | cons (symbol form) operands =>
    if form = "setq" then exposedBySetq operands else []
  | cons (cons operator args) operands => (cons operator args).exposed ++ exposedByAll operands
  | _ => []

def exposedBySetq : Expr → List String
  | cons (symbol name) (cons value nil) => value.exposed ++ [name]
  | _ => []

def exposedByAll : Expr → List String
  | cons car cdr => car.exposed ++ exposedByAll cdr
  | _ => []

end

theorem exposedByAll_ofList (items : List Expr) :
    exposedByAll (ofList items) = items.flatMap exposed := by
  induction items with
  | nil => simp [exposedByAll]
  | cons item items ih => simp [exposedByAll, ih]

theorem IsElem.of_mem_items {e item : Expr} {items : List Expr} (h : e.IsElem)
    (hitems : e.items? = some items) (hmem : item ∈ items) :
    item.IsElem :=
  forall_of_items? id h hitems item hmem

end Expr

namespace Store

/--
The value that the scope itself gives to a name, whatever the scopes around it say.
-/
def own? (store : Store) (scope : ScopeId) (name : String) : Option Expr :=
  store.frames[scope]?.bind fun frame => frame.bindings.get? name

theorem own?_define {store : Store} {scope : ScopeId} (h : scope < store.frames.size)
    (name other : String) (value : Expr) :
    (store.define scope name value).own? scope other =
      if other = name then some value else store.own? scope other := by
  simp only [own?]
  rw [getElem?_frames_define, if_pos rfl, Array.getElem?_eq_getElem h]
  simp only [Option.map_some, Option.bind_some]
  rw [Bindings.get?_set]

theorem SameFrames.own?_eq {before after : Store} (h : before.SameFrames after) {scope : ScopeId}
    (hscope : scope < before.frames.size) (name : String) :
    after.own? scope name = before.own? scope name := by
  rw [own?, own?, h.frame_eq scope hscope]

end Store

variable {ε ε' α β : Type} {scope : ScopeId} {xs ys : List String}

/--
From the store `before` on, the scope got bindings for all of the names if the run succeeded, and
for some of them if it failed. It kept its bindings for all other names, and no name lost its
binding.
-/
structure Run.Assigns (run : Run ε α) (before : Store) (scope : ScopeId) (names : List String) :
    Prop where
  size_lt : scope < run.store.frames.size
  still_bound : ∀ name, (before.own? scope name).isSome → (run.store.own? scope name).isSome
  same : ∀ name, name ∉ names → run.store.own? scope name = before.own? scope name
  bound : ∀ a, run.outcome = .value a →
    ∀ name ∈ names, (run.store.own? scope name).isSome

theorem Run.Assigns.of_failed {run : Run ε α} {run' : Run ε' β} {before : Store}
    (h : run.Assigns before scope xs) (hstore : run'.store = run.store)
    (houtcome : ∀ b, run'.outcome ≠ .value b) (hsubset : xs ⊆ ys) :
    run'.Assigns before scope ys := by
  constructor
  . rw [hstore]
    exact h.size_lt
  . rw [hstore]
    exact h.still_bound
  . intro name hname
    rw [hstore]
    apply h.same
    intro hmem
    exact hname (hsubset hmem)
  . intro b hb
    exact absurd hb (houtcome b)

namespace StoreM

/--
The action assigns the given names in the scope, in every store that has this scope.
-/
def Assigns (action : StoreM ε α) (scope : ScopeId) (names : List String) : Prop :=
  ∀ store, scope < store.frames.size → (action store).Assigns store scope names

theorem assigns_of_changes {action : StoreM ε α}
    (h : ∀ other, action.Changes (Store.SameOutside other)) :
    action.Assigns scope [] := by
  intro store hscope
  have hframes := Store.SameFrames.of_forall fun other => h other store
  constructor
  . exact Nat.lt_of_lt_of_le hscope hframes.size_le
  . intro name hbound
    rw [hframes.own?_eq hscope]
    exact hbound
  . intro name _
    exact hframes.own?_eq hscope name
  . simp

theorem assigns_pure (a : α) : (pure a : StoreM ε α).Assigns scope [] :=
  assigns_of_changes fun other => Eval.change_sameOutside.pure other a

theorem assigns_report (event : Event) : (report event : StoreM ε Unit).Assigns scope [] :=
  assigns_of_changes fun other => Eval.change_sameOutside.report other event

theorem assigns_fail (e : ε) : (fail e : StoreM ε α).Assigns scope xs := by
  intro store hscope
  have hpure := assigns_pure (ε := ε) () store hscope
  apply hpure.of_failed
  . rfl
  . rintro a ⟨⟩
  . simp

theorem assigns_giveUp : (giveUp : StoreM ε α).Assigns scope xs := by
  intro store hscope
  have hpure := assigns_pure (ε := ε) () store hscope
  apply hpure.of_failed
  . rfl
  . rintro a ⟨⟩
  . simp

theorem Assigns.mapError {action : StoreM ε α} (h : action.Assigns scope xs) (f : ε → ε') :
    (action.mapError f).Assigns scope xs := by
  intro store hscope
  have haction := h store hscope
  have hstore := store_mapError f action store
  have houtcome := outcome_mapError f action store
  constructor
  . rw [hstore]
    exact haction.size_lt
  . rw [hstore]
    exact haction.still_bound
  . rw [hstore]
    exact haction.same
  . intro a ha
    rw [hstore]
    apply haction.bound a
    rw [houtcome] at ha
    split at ha <;> simp_all

theorem Assigns.bind {action : StoreM ε α} {f : α → StoreM ε β} (haction : action.Assigns scope xs)
    (hf : ∀ a, (f a).Assigns scope ys) :
    (action >>= f).Assigns scope (xs ++ ys) := by
  intro store hscope
  have hfirst := haction store hscope
  have hstore := store_bind action f store
  have houtcome := outcome_bind action f store
  cases hend : (action store).outcome with
  | value a =>
    rw [hend] at hstore houtcome
    have hnext := hf a _ hfirst.size_lt
    constructor
    . rw [hstore]
      exact hnext.size_lt
    . intro name hbound
      rw [hstore]
      exact hnext.still_bound name (hfirst.still_bound name hbound)
    . intro name hname
      rw [List.mem_append, not_or] at hname
      rw [hstore, hnext.same name hname.2, hfirst.same name hname.1]
    . intro b hb name hname
      rw [houtcome] at hb
      rw [hstore]
      obtain hname | hname := List.mem_append.mp hname
      . exact hnext.still_bound name (hfirst.bound a hend name hname)
      . exact hnext.bound b hb name hname
  -- The second action did not take place, so of all the names only some of the first are bound.
  | error e =>
    rw [hend] at hstore houtcome
    apply hfirst.of_failed hstore
    . simp [houtcome]
    . exact List.subset_append_left xs ys
  | outOfFuel =>
    rw [hend] at hstore houtcome
    apply hfirst.of_failed hstore
    . simp [houtcome]
    . exact List.subset_append_left xs ys

theorem Assigns.bind_right {action : StoreM ε α} {f : α → StoreM ε β}
    (haction : action.Assigns scope []) (hf : ∀ a, (f a).Assigns scope xs) :
    (action >>= f).Assigns scope xs :=
  haction.bind hf

theorem Assigns.bind_left {action : StoreM ε α} {f : α → StoreM ε β}
    (haction : action.Assigns scope xs) (hf : ∀ a, (f a).Assigns scope []) :
    (action >>= f).Assigns scope xs := by
  have hbind := haction.bind hf
  rwa [List.append_nil] at hbind

end StoreM

namespace Eval

open StoreM

variable {evaluator : Evaluator} {scope : ScopeId}

theorem assigns_define (name : String) (value : Expr) :
    (Eval.define name value scope).Assigns scope [name] := by
  unfold Eval.define
  apply Assigns.bind_right
  . apply assigns_report
  . intro _ store hscope
    have hown := Store.own?_define hscope name
    constructor
    . simpa [StoreM.modify] using hscope
    . intro other hbound
      simp only [StoreM.modify, hown]
      split <;> simp [hbound]
    . intro other hother
      rw [List.mem_singleton] at hother
      simp only [StoreM.modify, hown, if_neg hother]
    . intro _ _ other hother
      rw [List.mem_singleton] at hother
      simp only [StoreM.modify, hown, if_pos hother]
      rfl

theorem assigns_lookup (name : String) : (Eval.lookup name scope).Assigns scope [] :=
  assigns_of_changes fun other => change_sameOutside.lookup name scope other

theorem assigns_lambda (operands : Expr) : (Eval.lambda operands scope).Assigns scope [] :=
  assigns_of_changes fun other => change_sameOutside.lambda operands scope other

theorem assigns_checkArity (callee : Callee) (arity : Arity) (found : Nat) :
    (Eval.checkArity callee arity found).Assigns scope [] :=
  assigns_of_changes fun other => change_sameOutside.checkArity callee arity found other

theorem assigns_all {exprs : List Expr}
    (heval : ∀ e ∈ exprs, (evaluator e scope).Assigns scope e.exposed) :
    (Eval.all evaluator scope exprs).Assigns scope (exprs.flatMap Expr.exposed) := by
  induction exprs with
  | nil => apply assigns_pure
  | cons e exprs ih =>
    simp only [List.mem_cons, forall_eq_or_imp] at heval
    apply heval.1.bind
    intro value
    apply (ih heval.2).bind_left
    intro values
    apply assigns_pure

theorem assigns_sequence {exprs : List Expr}
    (heval : ∀ e ∈ exprs, (evaluator e scope).Assigns scope e.exposed) :
    (Eval.sequence evaluator scope exprs).Assigns scope (exprs.flatMap Expr.exposed) := by
  fun_induction Eval.sequence evaluator scope exprs with
  | case1 => apply assigns_pure
  | case2 e =>
    rw [List.flatMap_singleton]
    exact heval e List.mem_cons_self
  | case3 e exprs _ ih =>
    simp only [List.mem_cons, forall_eq_or_imp] at heval
    apply heval.1.bind
    intro _
    apply ih
    simpa using heval.2

theorem assigns_setq {operands : Expr} (h : operands.IsElem)
    (heval : ∀ e, e.IsElem → (evaluator e scope).Assigns scope e.exposed) :
    (Eval.setq evaluator operands scope).Assigns scope operands.exposedBySetq := by
  unfold Eval.setq
  split
  . next name e hitems =>
    have hmem : e ∈ [.symbol name, e] := List.mem_cons_of_mem _ List.mem_cons_self
    have he := h.of_mem_items hitems hmem
    rw [Expr.eq_ofList_of_items? hitems]
    simp only [Expr.ofList_cons, Expr.ofList_nil, Expr.exposedBySetq]
    apply (heval e he).bind
    intro value
    apply (assigns_define name value).bind_left
    intro _
    apply assigns_pure
  . apply assigns_fail
  . apply assigns_fail

section

/-!
The evaluator is one that assigns what the expression shows, in the scope of the evaluation, and
that changes no other scope.
-/

variable (hisolated : ∀ e inner, (evaluator e inner).Changes (Store.SameOutside inner))

include hisolated

theorem assigns_runBody (captured : ScopeId) (params : List String) (body : Expr)
    (values : List Expr) :
    (Eval.runBody evaluator captured params body values).Assigns scope [] :=
  assigns_of_changes fun other =>
    change_sameOutside.runBody captured params body values other hisolated

theorem assigns_apply {callable args : Expr} (h : args.IsElem)
    (heval : ∀ e, e.IsElem → (evaluator e scope).Assigns scope e.exposed) :
    (Eval.apply evaluator callable args scope).Assigns scope args.exposedByAll := by
  unfold Eval.apply
  split
  . apply assigns_fail
  . next items hitems =>
    have hall : (Eval.all evaluator scope items).Assigns scope args.exposedByAll := by
      rw [Expr.eq_ofList_of_items? hitems, Expr.exposedByAll_ofList]
      apply assigns_all
      intro e he
      exact heval e (h.of_mem_items hitems he)
    split
    . next f =>
      unfold Eval.applyNative
      apply Assigns.bind_right
      . apply assigns_checkArity
      . intro _
        apply hall.bind_left
        intro values
        apply (assigns_report _).bind_left
        intro _
        split
        . apply assigns_pure
        . apply assigns_fail
    . next captured params body =>
      unfold Eval.applyClosure
      apply Assigns.bind_right
      . apply assigns_checkArity
      . intro _
        apply hall.bind_left
        intro values
        apply assigns_runBody hisolated
    . apply assigns_fail

theorem assigns_callInNewScope {operator : Expr} (args : Expr)
    (hoperator : (evaluator operator scope).Assigns scope []) :
    (Eval.callInNewScope evaluator operator args scope).Assigns scope [] := by
  unfold Eval.callInNewScope
  apply hoperator.bind_left
  intro callable
  split
  -- The arguments and the body take place in scopes that were not there before.
  . apply assigns_of_changes
    intro other
    apply change_sameOutside.enclose_bind
    intro inner
    apply change_sameOutside.apply callable args inner hisolated
  . apply assigns_fail

theorem assigns_call {operator operands : Expr} (h : (Expr.cons operator operands).IsElem)
    (heval : ∀ e, e.IsElem → (evaluator e scope).Assigns scope e.exposed) :
    (Eval.call evaluator operator operands scope).Assigns scope
      (Expr.cons operator operands).exposed := by
  have hoperator := heval operator h.1
  unfold Eval.call
  split
  . next name =>
    rw [Expr.exposed]
    split
    . next hlambda =>
      rw [if_neg (by simp [hlambda])]
      apply assigns_lambda
    . split
      . exact assigns_setq h.2 heval
      . rw [Expr.exposed] at hoperator
        . exact assigns_callInNewScope hisolated operands hoperator
        all_goals nofun
  . rw [Expr.exposed]
    unfold Eval.callInPlace
    apply hoperator.bind
    intro callable
    exact assigns_apply hisolated h.2 heval
  -- An operator that is neither a symbol nor a cons cell assigns nothing itself.
  . next hsymbol hcons =>
    have hnone : operator.exposed = [] := by
      rw [Expr.exposed]
      . intro form operands heq
        exact hcons _ _ heq
      . intro operator args operands heq
        exact hcons _ _ heq
    rw [Expr.exposed]
    . apply assigns_callInNewScope hisolated
      rwa [hnone] at hoperator
    . rintro form operands ⟨⟩
      exact hsymbol form rfl
    . rintro operator args operands ⟨⟩
      exact hcons operator args rfl

theorem assigns_step {e : Expr} (h : e.IsPhrase)
    (heval : ∀ e, e.IsElem → (evaluator e scope).Assigns scope e.exposed) :
    (Eval.step evaluator e scope).Assigns scope e.exposed := by
  cases e with
  | symbol name =>
    rw [Expr.exposed]
    . apply assigns_lookup
    all_goals nofun
  | cons operator operands =>
    exact assigns_call hisolated (h.resolve_left nofun) heval
  | sequence exprs => exact absurd (h.resolve_left nofun) id
  | _ =>
    rw [Expr.exposed]
    . apply assigns_pure
    all_goals nofun

end

theorem assigns_evaluate (depth : Nat) {e : Expr} (h : e.IsPhrase) :
    (evaluate depth e scope).Assigns scope e.exposed := by
  induction depth generalizing e with
  | zero => apply assigns_giveUp
  | succ depth ih =>
    apply assigns_step (change_sameOutside.evaluate depth) h
    intro e he
    exact ih (.inr he)

end Eval

namespace Program

open StoreM

theorem assigns_run (depth : Nat) {text : String} {exprs : List Expr}
    (hparse : parse text = .ok exprs) (scope : ScopeId) :
    (Program.run depth text scope).Assigns scope (exprs.flatMap Expr.exposed) := by
  have hphrases := isPhrase_of_parse hparse
  obtain ⟨tokens, htokens, hexprs⟩ := parse_eq_ok_iff.mp hparse
  unfold Program.run
  simp only [htokens, hexprs]
  apply (assigns_report _).bind_right
  intro _
  split
  . apply assigns_fail
  . apply assigns_fail
  . next exprs' _ heq =>
    cases heq
    unfold Program.runExprs
    apply (assigns_report _).bind_right
    intro _
    apply Assigns.mapError
    apply Eval.assigns_sequence
    intro e he
    exact Eval.assigns_evaluate depth (hphrases e he)

/--
A program binds exactly the names that can be told from its text if it succeeds, and it changes no
other names whether it succeeds or not.
-/
theorem assigned_names {text : String} {exprs : List Expr} (hparse : parse text = .ok exprs)
    {store : Store} {scope : ScopeId} (hscope : scope < store.frames.size) (depth : Nat) :
    let run := Program.run depth text scope store
    (∀ name, (store.own? scope name).isSome → (run.store.own? scope name).isSome) ∧
    (∀ name, run.store.own? scope name ≠ store.own? scope name →
      name ∈ exprs.flatMap Expr.exposed) ∧
    ((∃ value, run.outcome = .value value) →
      ∀ name, (run.store.own? scope name).isSome ↔
        (store.own? scope name).isSome ∨ name ∈ exprs.flatMap Expr.exposed) := by
  intro run
  have hrun : run.Assigns store scope (exprs.flatMap Expr.exposed) :=
    assigns_run depth hparse scope store hscope
  refine ⟨hrun.still_bound, ?_, ?_⟩
  . intro name hne
    apply Decidable.byContradiction
    intro hmem
    exact hne (hrun.same name hmem)
  . rintro ⟨value, hvalue⟩ name
    constructor
    . intro hbound
      by_cases hmem : name ∈ exprs.flatMap Expr.exposed
      . exact .inr hmem
      . rw [hrun.same name hmem] at hbound
        exact .inl hbound
    . rintro (hbound | hmem)
      . exact hrun.still_bound name hbound
      . exact hrun.bound value hvalue name hmem

theorem assigned_names_nested :
    let text := "(setq x ((car (list list)) (setq y 1))) (list (setq w 2))"
    let store := Store.empty.addGlobal
    let run := Program.run 9 text 0 store
    run.outcome = .value (.ofList [.integer 2]) ∧
    ∀ name, (run.store.own? 0 name).isSome ↔
      (store.own? 0 name).isSome ∨ name ∈ ["y", "x"] := by
  intro text store run
  have hparse : parse text = .ok
      [.ofList [.symbol "setq", .symbol "x", .ofList
        [.ofList [.symbol "car", .ofList [.symbol "list", .symbol "list"]],
          .ofList [.symbol "setq", .symbol "y", .integer 1]]],
        .ofList [.symbol "list", .ofList [.symbol "setq", .symbol "w", .integer 2]]] := by
    cbv
  have hscope : 0 < store.frames.size := by decide
  have hvalue : (Program.run 9 text 0 store).outcome = .value (.ofList [.integer 2]) := by cbv
  obtain ⟨_, _, hbound⟩ := assigned_names hparse hscope 9
  exact ⟨hvalue, hbound ⟨_, hvalue⟩⟩

end Program

end ChatLisp
