import ChatLisp.Proofs.Eval.Agreement
import ChatLisp.Proofs.Scope.Closed

/-!
This module contains the agreement of two ways to call a function. A call by name evaluates the
arguments in a new scope, a call of a computed function evaluates them in the current one. If the
arguments define nothing, then nobody can tell the two apart.
-/

namespace ChatLisp

open StoreM

/--
The call `(car (list name))`. As an operator it is a computed function, the one that has the name.
-/
def Expr.carList (name : String) : Expr :=
  .ofList [.symbol "car", .ofList [.symbol "list", .symbol name]]

/--
Every scope of the store plays its own part, and the next scope that is made means the same as
`scope`.
-/
def Store.inside (store : Store) (scope : ScopeId) : Pairing where
  names := Set.univ
  foreign := ∅
  twin a b := a = b ∧ a < store.frames.size
  link a b := (a = b ∧ a < store.frames.size) ∨ (a = store.nextScope ∧ b = scope)
  link_of_twin := .inl
  left_unique := by
    rintro a b c ⟨rfl, _⟩ ⟨rfl, _⟩
    rfl
  right_unique := by
    rintro a b c ⟨rfl, _⟩ ⟨rfl, _⟩
    rfl
  not_foreign _ := Set.notMem_empty _

theorem Store.alike_inside {store : Store} {scope : ScopeId} {value : Expr}
    (h : value.Within store.frames.size) :
    (store.inside scope).Alike value value := by
  apply Expr.Alike.refl
  . exact Set.mem_univ
  . intro captured hcaptured
    exact .inl ⟨rfl, h captured hcaptured⟩

theorem Store.Closed.paired_inside {store : Store} (h : store.Closed) {scope : ScopeId}
    (hscope : scope < store.frames.size) (outer outer' : ScopeId) :
    (store.enclose scope).Paired (store.inside scope)
      ((store.enclose outer).enclose outer') := by
  have hlt : ∀ {a} outer, a < store.frames.size → a < (store.enclose outer).frames.size := by
    intro a outer hlt
    rw [size_frames_enclose]
    exact Nat.lt_succ_of_lt hlt
  constructor
  . nofun
  . rintro a _ ⟨rfl, ha⟩
    rw [size_frames_enclose (store.enclose outer)]
    exact ⟨hlt scope ha, Nat.lt_succ_of_lt (hlt outer ha)⟩
  . rintro a _ ⟨rfl, ha⟩ name _
    rw [own?_enclose _ (hlt outer ha), own?_enclose _ ha, own?_enclose _ ha]
    cases hvalue : store.own? a name with
    | none => exact .none
    | some value => exact .some (alike_inside (h.within hvalue))
  . rintro a _ ⟨rfl, ha⟩
    rw [outer?_enclose _ (hlt outer ha), outer?_enclose _ ha, outer?_enclose _ ha]
    cases houter : store.outer? a with
    | none => exact .none
    | some outer =>
      have hlt := h.nested houter
      exact .some ⟨hlt, hlt, .inl ⟨rfl, hlt.trans ha⟩⟩
  . rintro a b (htwin | ⟨rfl, rfl⟩)
    . exact .inl htwin
    . right
      refine ⟨?_, own?_enclose_nextScope store b, b, hscope, outer?_enclose_nextScope store b, ?_⟩
      . rintro _ ⟨_, hlt⟩
        exact absurd hlt (Nat.lt_irrefl _)
      . exact .inl ⟨rfl, hscope⟩

namespace StoreM

variable {ε α β : Type}

/--
From the store `before` on, the action comes to this end and leaves the store `after`.
-/
structure Ends (action : StoreM ε α) (before : Store) (outcome : Outcome ε α) (after : Store) :
    Prop where
  outcome_eq : (action before).outcome = outcome
  store_eq : (action before).store = after

variable {action : StoreM ε α} {f : α → StoreM ε β} {before between after : Store}

theorem Ends.bind {a : α} {outcome : Outcome ε β} (haction : action.Ends before (.value a) between)
    (hf : (f a).Ends between outcome after) :
    (action >>= f).Ends before outcome after := by
  constructor
  . rw [outcome_bind, haction.outcome_eq, haction.store_eq]
    exact hf.outcome_eq
  . rw [store_bind, haction.outcome_eq, haction.store_eq]
    exact hf.store_eq

theorem Ends.bind_error {e : ε} (haction : action.Ends before (.error e) after) :
    (action >>= f).Ends before (.error e) after := by
  constructor
  . rw [outcome_bind, haction.outcome_eq]
  . rw [store_bind, haction.outcome_eq, haction.store_eq]

end StoreM

namespace Eval

variable {evaluator : Evaluator} {store after : Store} {scope : ScopeId} {name : String}
  {callable args e : Expr} {outcome : Outcome EvalError Expr} {depth : Nat}

theorem ends_bound (depth : Nat) (h : store.lookup? scope name = some callable) :
    (evaluate (depth + 1) (.symbol name) scope).Ends store (.value callable) store := by
  apply Ends.bind (a := some callable)
  . exact ⟨congrArg _ h, rfl⟩
  . exact ⟨rfl, rfl⟩

theorem ends_unbound (depth : Nat) (h : store.lookup? scope name = none) :
    (evaluate (depth + 1) (.symbol name) scope).Ends store (.error (.unbound name)) store := by
  apply Ends.bind (a := none)
  . exact ⟨congrArg _ h, rfl⟩
  . exact ⟨rfl, rfl⟩

theorem evaluate_call (hname : name ∉ specialForms) (depth : Nat) (args : Expr) (scope : ScopeId) :
    evaluate (depth + 1) (.cons (.symbol name) args) scope =
      Eval.callInNewScope (evaluate depth) (.symbol name) args scope := by
  simp only [specialForms, List.mem_cons, List.not_mem_nil, or_false, not_or] at hname
  change Eval.call (evaluate depth) (.symbol name) args scope = _
  rw [Eval.call, if_neg hname.1, if_neg hname.2]

theorem ends_call (hname : name ∉ specialForms) (h : store.lookup? scope name = some callable)
    (hcallable : callable.isCallable)
    (happly : (Eval.apply (evaluate (depth + 1)) callable args store.nextScope).Ends
      (store.enclose scope) outcome after) :
    (evaluate (depth + 2) (.cons (.symbol name) args) scope).Ends store outcome after := by
  rw [evaluate_call hname]
  apply (ends_bound depth h).bind
  rw [if_pos hcallable]
  exact Ends.bind ⟨rfl, rfl⟩ happly

theorem ends_call_refused (hname : name ∉ specialForms)
    (h : store.lookup? scope name = some callable) (hcallable : ¬ callable.isCallable)
    (depth : Nat) (args : Expr) :
    (evaluate (depth + 2) (.cons (.symbol name) args) scope).Ends store
      (.error (.notAProcedure callable)) store := by
  rw [evaluate_call hname]
  apply (ends_bound depth h).bind
  rw [if_neg hcallable]
  exact ⟨rfl, rfl⟩

theorem ends_call_unbound (hname : name ∉ specialForms) (h : store.lookup? scope name = none)
    (depth : Nat) (args : Expr) :
    (evaluate (depth + 2) (.cons (.symbol name) args) scope).Ends store (.error (.unbound name))
      store := by
  rw [evaluate_call hname]
  exact (ends_unbound depth h).bind_error

theorem ends_apply_refused (hcallable : ¬ callable.isCallable) (evaluator : Evaluator)
    (items : List Expr) (scope : ScopeId) (store : Store) :
    (Eval.apply evaluator callable (.ofList items) scope).Ends store
      (.error (.notAProcedure callable)) store := by
  rw [Eval.apply, Expr.items?_ofList]
  cases callable with
  | closure _ _ _ _ => exact absurd rfl hcallable
  | native _ => exact absurd rfl hcallable
  | _ => exact ⟨rfl, rfl⟩

theorem ends_all_nil (evaluator : Evaluator) (scope : ScopeId) (store : Store) :
    (Eval.all evaluator scope []).Ends store (.value []) store :=
  ⟨rfl, rfl⟩

section

variable {between : Store} {value : Expr} {items : List Expr}
  (h : (evaluator e scope).Ends store (.value value) between)

include h

theorem ends_all_cons {values : List Expr}
    (hall : (Eval.all evaluator scope items).Ends between (.value values) after) :
    (Eval.all evaluator scope (e :: items)).Ends store (.value (value :: values)) after :=
  h.bind (hall.bind ⟨rfl, rfl⟩)

theorem ends_all_cons_error {error : EvalError}
    (hall : (Eval.all evaluator scope items).Ends between (.error error) after) :
    (Eval.all evaluator scope (e :: items)).Ends store (.error error) after :=
  h.bind hall.bind_error

end

theorem ends_apply_native {f : Native} {items values : List Expr}
    (hadmits : f.arity.Admits items.length)
    (hall : (Eval.all evaluator scope items).Ends store (.value values) after) :
    (Eval.apply evaluator (.native f) (.ofList items) scope).Ends store
      (.ofExcept (f.primitive.run values)) after := by
  obtain ⟨houtcome, rfl⟩ := hall
  cases hrun : Eval.all evaluator scope items store with
  | mk outcome after events =>
    rw [hrun] at houtcome
    cases houtcome
    have happly := applyNative_of_all hadmits hrun
    rw [apply_native]
    exact ⟨congrArg Run.outcome happly, congrArg Run.store happly⟩

theorem ends_apply_native_error {f : Native} {items : List Expr} {error : EvalError}
    (hadmits : f.arity.Admits items.length)
    (hall : (Eval.all evaluator scope items).Ends store (.error error) after) :
    (Eval.apply evaluator (.native f) (.ofList items) scope).Ends store (.error error) after := by
  rw [apply_native, Eval.applyNative, checkArity_of_admits hadmits, pure_bind]
  exact hall.bind_error

section

variable {f : Native} (hadmits : f.arity.Admits 1)

include hadmits

theorem ends_apply_unary {value result : Expr}
    (h : (evaluator e scope).Ends store (.value value) after)
    (hresult : f.primitive.run [value] = .ok result) :
    (Eval.apply evaluator (.native f) (.ofList [e]) scope).Ends store (.value result) after := by
  have hall : (Eval.all evaluator scope [e]).Ends store (.value [value]) after :=
    ends_all_cons h (ends_all_nil ..)
  have happly := ends_apply_native hadmits hall
  rwa [hresult] at happly

theorem ends_apply_unary_error {error : EvalError}
    (h : (evaluator e scope).Ends store (.error error) after) :
    (Eval.apply evaluator (.native f) (.ofList [e]) scope).Ends store (.error error) after :=
  ends_apply_native_error hadmits h.bind_error

end

theorem answer?_apply (hstore : store.Closed) (hscope : scope < store.frames.size)
    (hcallable : callable.Within store.frames.size) {items : List Expr}
    (hitems : ∀ item ∈ items, item.Quiet) (depth : Nat) (outer outer' : ScopeId) :
    (Eval.apply (evaluate depth) callable (.ofList items) store.nextScope
        (store.enclose scope)).outcome.answer? EvalError.message =
      (Eval.apply (evaluate depth) callable (.ofList items) scope
        ((store.enclose outer).enclose outer')).outcome.answer? EvalError.message := by
  have hlink : (store.inside scope).link store.nextScope scope := .inr ⟨rfl, rfl⟩
  have hcallable : (store.inside scope).Alike callable callable := Store.alike_inside hcallable
  have hargs : (store.inside scope).Alike (.ofList items) (.ofList items) := by
    apply Expr.Alike.ofList
    rw [List.forall₂_same]
    intro item hitem
    exact (hitems item hitem).isPhrase.alike _ _
  have hquiet : ∀ exprs, (Expr.ofList items).items? = some exprs → ∀ e ∈ exprs, e.Quiet := by
    intro exprs hexprs
    rw [Expr.items?_ofList] at hexprs
    cases hexprs
    exact hitems
  have hagree := agree_apply (agrees_evaluate depth) hlink hcallable hargs
    (fun name _ => Set.mem_univ name) (.inr hquiet)
  obtain ⟨_, _, _, hend⟩ := hagree _ _ (hstore.paired_inside hscope outer outer')
  exact hend.answer?_eq.symm

section

variable (hscope : scope < store.frames.size)
  (hcar : store.lookup? scope "car" = some (.native Primitive.car.native))
  (hlist : store.lookup? scope "list" = some (.native Primitive.list.native))

include hscope hcar hlist

theorem ends_carList (hvalue : store.lookup? scope name = some callable) (depth : Nat) :
    (evaluate (depth + 3) (.carList name) scope).Ends store (.value callable)
      ((store.enclose scope).enclose store.nextScope) := by
  -- The call of `car` makes one scope, and the call of `list` in its argument another inside it.
  rw [← Store.lookup?_enclose_nextScope hscope] at hlist
  rw [← Store.lookup?_enclose_twice hscope] at hvalue
  have hlist_run := ends_apply_unary (f := Primitive.list.native) trivial
    (ends_bound depth hvalue) rfl
  have hcar_run := ends_apply_unary (f := Primitive.car.native) rfl
    (ends_call (by decide) hlist rfl hlist_run) rfl
  exact ends_call (by decide) hcar rfl hcar_run

theorem ends_carList_unbound (hvalue : store.lookup? scope name = none) (depth : Nat) :
    (evaluate (depth + 3) (.carList name) scope).Ends store (.error (.unbound name))
      ((store.enclose scope).enclose store.nextScope) := by
  rw [← Store.lookup?_enclose_nextScope hscope] at hlist
  rw [← Store.lookup?_enclose_twice hscope] at hvalue
  have hlist_run :=
    ends_apply_unary_error (f := Primitive.list.native) trivial (ends_unbound depth hvalue)
  have hcar_run := ends_apply_unary_error (f := Primitive.car.native) rfl
    (ends_call (by decide) hlist rfl hlist_run)
  exact ends_call (by decide) hcar rfl hcar_run

/--
At every depth that lets both calls get to their arguments, they are seen to end in the same way.
-/
theorem answer?_call (hstore : store.Closed) (hname : name ∉ specialForms) {items : List Expr}
    (hitems : ∀ item ∈ items, item.Quiet) (depth : Nat) :
    (evaluate (depth + 4) (.ofList (.symbol name :: items)) scope store).outcome.answer?
        EvalError.message =
      (evaluate (depth + 4) (.ofList (.carList name :: items)) scope store).outcome.answer?
        EvalError.message := by
  have hcomputed : evaluate (depth + 4) (.ofList (.carList name :: items)) scope =
      evaluate (depth + 3) (.carList name) scope >>= fun callable =>
        Eval.apply (evaluate (depth + 3)) callable (.ofList items) scope := rfl
  rw [hcomputed, Expr.ofList_cons]
  cases hvalue : store.lookup? scope name with
  | none =>
    have hoperator := ends_carList_unbound hscope hcar hlist hvalue depth
    rw [hoperator.bind_error.outcome_eq, (ends_call_unbound hname hvalue _ _).outcome_eq]
  | some callable =>
    have hoperator := ends_carList hscope hcar hlist hvalue depth
    by_cases hcallable : callable.isCallable
    . rw [(ends_call hname hvalue hcallable ⟨rfl, rfl⟩).outcome_eq]
      rw [(hoperator.bind ⟨rfl, rfl⟩).outcome_eq]
      exact answer?_apply hstore hscope (hstore.within_of_lookup? hvalue) hitems _ _ _
    -- The operands are a proper list, so it does not matter which of the calls checks them first.
    . have hrefused := ends_apply_refused hcallable (evaluate (depth + 3)) items scope
      rw [(ends_call_refused hname hvalue hcallable _ _).outcome_eq]
      rw [(hoperator.bind (hrefused _)).outcome_eq]

end

/--
The two ways to call what a name means. If one of them comes to an end then so does the other, with
the same value as it is printed, or with the same message.
-/
theorem endsWith_call_iff (hstore : store.Closed) (hscope : scope < store.frames.size)
    (hcar : store.lookup? scope "car" = some (.native Primitive.car.native))
    (hlist : store.lookup? scope "list" = some (.native Primitive.list.native))
    (hname : name ∉ specialForms) {items : List Expr} (hitems : ∀ item ∈ items, item.Quiet)
    (answer : Except String String) :
    EndsWith (.ofList (.symbol name :: items)) scope store answer ↔
      EndsWith (.ofList (.carList name :: items)) scope store answer := by
  have heq := answer?_call hscope hcar hlist hstore hname hitems
  exact ⟨.of_answer?_eq 4 heq, .of_answer?_eq 4 fun depth => (heq depth).symm⟩

theorem endsWith_call_iff_lambda :
    let applyToSeven := Expr.closure 0 0 ["g"] (.sequence [.ofList [.symbol "g", .integer 7]])
    let store := Store.empty.addGlobal.define 0 "f" applyToSeven
    let identity := Expr.ofList [.symbol "lambda", .ofList [.symbol "x"], .symbol "x"]
    EndsWith (.ofList [.symbol "f", identity]) 0 store (.ok "7") ∧
    EndsWith (.ofList [.carList "f", identity]) 0 store (.ok "7") := by
  intro applyToSeven store identity
  have hstore : store.Closed := by
    apply Store.closed_empty.addGlobal.define (by decide)
    rw [Expr.Within]
    decide
  have hquiet : identity.Quiet := by
    refine ⟨.inr ?_, by cbv⟩
    simp only [identity, Expr.ofList_cons, Expr.ofList_nil, Expr.IsElem]
    decide
  have hscope : 0 < store.frames.size := by decide
  have hcar : store.lookup? 0 "car" = some (.native Primitive.car.native) := by cbv
  have hlist : store.lookup? 0 "list" = some (.native Primitive.list.native) := by cbv
  have hname : "f" ∉ specialForms := by decide
  have hitems : ∀ item ∈ [identity], item.Quiet := List.forall_mem_singleton.mpr hquiet
  have hbyname : EndsWith (.ofList [.symbol "f", identity]) 0 store (.ok "7") := ⟨6, by cbv⟩
  have hiff := endsWith_call_iff hstore hscope hcar hlist hname hitems (.ok "7")
  exact ⟨hbyname, hiff.mp hbyname⟩

end Eval

end ChatLisp
