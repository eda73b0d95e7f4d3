import ChatLisp.Eval.Basic
import ChatLisp.Proofs.Scope.Closed

/-!
This module contains the principle by which facts about values are proved of all evaluations. What
is known of code and of values is kept by every evaluation if it passes from code to its parts, from
code to the values and closures that are made of it, and from a closure to its body. That the store
stays closed is part of every such invariant.
-/

namespace ChatLisp

/--
Whether the expression is its own value.
-/
def Expr.isAtom : Expr → Bool
  | symbol _ => false
  | quoted _ => false
  | sequence _ => false
  | cons _ _ => false
  | _ => true

namespace Eval

/--
What is known of expressions that are evaluated, given the depth that is left to them, of values,
and of the names that are bound to values.
-/
structure Invariant where
  Code : (depth : Nat) → Expr → Prop
  Value : Expr → Prop
  Name : String → Prop
  /-- What is known of the native functions that are applied, and of the count of arguments. -/
  Applied : (name : String) → (count : Nat) → Prop
  /-- Whether an evaluation may run out of depth. -/
  MayGiveUp : Prop
  giveUp : ∀ {e}, Code 0 e → MayGiveUp
  atom : ∀ {depth e}, Code (depth + 1) e → e.isAtom → Value e
  quoted : ∀ {depth inner}, Code (depth + 1) (.quoted inner) → Value inner
  member : ∀ {depth exprs}, Code (depth + 1) (.sequence exprs) → ∀ e ∈ exprs, Code depth e
  operator : ∀ {depth operator operands}, Code (depth + 1) (.cons operator operands) →
    Code depth operator
  operand : ∀ {depth operator operands items}, Code (depth + 1) (.cons operator operands) →
    operands.items? = some items → ∀ e ∈ items, Code depth e
  closure : ∀ {depth params body items names exprs},
    Code (depth + 1) (.cons (.symbol "lambda") (.cons params body)) → params.items? = some items →
      paramNames items = .ok names → body.items? = some exprs →
        ∀ serial scope, Value (.closure serial scope names (.sequence exprs))
  assigned : ∀ {depth operands name e}, Code (depth + 1) (.cons (.symbol "setq") operands) →
    operands.items? = some [.symbol name, e] → Name name
  params : ∀ {serial scope params body}, Value (.closure serial scope params body) →
    ∀ name ∈ params, Name name
  body : ∀ {serial scope params body}, Value (.closure serial scope params body) →
    ∀ depth, Code depth body
  nil : Value .nil
  integer : ∀ value, Value (.integer value)
  cons_iff : ∀ {car cdr}, Value (.cons car cdr) ↔ Value car ∧ Value cdr
  applied : ∀ {f count}, Value (.native f) → f.arity.Admits count → Applied f.name count

namespace Invariant

variable (inv : Invariant)

/--
The expression may be evaluated in a store with so many scopes.
-/
structure Ready (depth size : Nat) (e : Expr) : Prop where
  within : e.Within size
  code : inv.Code depth e

/--
The expression may be a value in a store with so many scopes.
-/
structure Sound (size : Nat) (e : Expr) : Prop where
  within : e.Within size
  value : inv.Value e

variable {inv} {depth size more : Nat} {e : Expr}

theorem Ready.mono (hle : size ≤ more) (h : inv.Ready depth size e) : inv.Ready depth more e :=
  ⟨h.within.mono hle, h.code⟩

theorem Sound.mono (hle : size ≤ more) (h : inv.Sound size e) : inv.Sound more e :=
  ⟨h.within.mono hle, h.value⟩

theorem Ready.operator {operator operands : Expr}
    (h : inv.Ready (depth + 1) size (.cons operator operands)) :
    inv.Ready depth size operator :=
  ⟨(Expr.within_cons.mp h.within).1, inv.operator h.code⟩

theorem Ready.operands {operator operands : Expr} {items : List Expr}
    (h : inv.Ready (depth + 1) size (.cons operator operands))
    (hitems : operands.items? = some items) :
    ∀ e ∈ items, inv.Ready depth size e := by
  intro e he
  constructor
  . exact (Expr.within_cons.mp h.within).2.of_items? hitems e he
  . exact inv.operand h.code hitems e he

theorem Ready.members {exprs : List Expr} (h : inv.Ready (depth + 1) size (.sequence exprs)) :
    ∀ e ∈ exprs, inv.Ready depth size e := by
  intro e he
  exact ⟨Expr.within_sequence.mp h.within e he, inv.member h.code e he⟩

theorem value_ofList {items : List Expr} (h : ∀ item ∈ items, inv.Value item) :
    inv.Value (.ofList items) := by
  induction items with
  | nil => exact inv.nil
  | cons item items ih =>
    rw [List.forall_mem_cons] at h
    exact inv.cons_iff.mpr ⟨h.1, ih h.2⟩

theorem value_run {primitive : Primitive} {args : List Expr} {value : Expr}
    (h : primitive.run args = .ok value) (hargs : ∀ arg ∈ args, inv.Value arg) :
    inv.Value value := by
  unfold Primitive.run at h
  split at h
  . split at h
    . split at h
      . cases h
        exact inv.integer _
      . cases h
    all_goals cases h
  . split at h
    . cases h
      simp only [List.forall_mem_cons] at hargs
      exact inv.cons_iff.mpr ⟨hargs.1, hargs.2.1⟩
    . cases h
  . split at h
    . cases h
      rw [List.forall_mem_singleton, inv.cons_iff] at hargs
      exact hargs.1
    all_goals cases h
  . split at h
    . cases h
      rw [List.forall_mem_singleton, inv.cons_iff] at hargs
      exact hargs.2
    all_goals cases h
  . cases h
    exact value_ofList hargs

theorem sound_run {primitive : Primitive} {args : List Expr} {value : Expr}
    (h : primitive.run args = .ok value) (hargs : ∀ arg ∈ args, inv.Sound size arg) :
    inv.Sound size value := by
  constructor
  . exact Primitive.within_run h fun arg hmem => (hargs arg hmem).within
  . exact value_run h fun arg hmem => (hargs arg hmem).value

end Invariant

end Eval

namespace Store

theorem exists_own?_of_lookup? {store : Store} {scope : ScopeId} {name : String} {value : Expr}
    (h : store.lookup? scope name = some value) :
    ∃ holder, store.own? holder name = some value := by
  induction scope using Nat.strong_induction_on with
  | _ scope ih =>
    rw [lookup?_eq, Option.or_eq_some_iff] at h
    obtain hown | ⟨_, houter⟩ := h
    . exact ⟨scope, hown⟩
    . split at houter
      . cases houter
      . next outer _ =>
        split at houter
        . next hlt => exact ih outer hlt houter
        . cases houter

/--
The store is closed, and the invariant is known of all names and values in it.
-/
structure Obeys (inv : Eval.Invariant) (store : Store) : Prop where
  closed : store.Closed
  value : ∀ {scope name value}, store.own? scope name = some value → inv.Value value
  name : ∀ {scope name value}, store.own? scope name = some value → inv.Name name

namespace Obeys

variable {inv : Eval.Invariant} {store : Store} {scope : ScopeId} {name : String} {value : Expr}

theorem sound_of_lookup? (h : store.Obeys inv) (hvalue : store.lookup? scope name = some value) :
    inv.Sound store.frames.size value := by
  obtain ⟨holder, hown⟩ := exists_own?_of_lookup? hvalue
  exact ⟨h.closed.within hown, h.value hown⟩

theorem push (h : store.Obeys inv) {frame : Frame}
    (houter : ∀ outer, frame.outer = some outer → outer < store.frames.size)
    (hbindings : ∀ name value, frame.bindings.get? name = some value →
      inv.Name name ∧ inv.Sound store.frames.size value) :
    (store.push frame).Obeys inv := by
  have hbound : ∀ {scope name value}, (store.push frame).own? scope name = some value →
      inv.Name name ∧ inv.Value value := by
    intro scope name value hvalue
    rw [own?, getElem?_frames_push] at hvalue
    split at hvalue
    . exact (hbindings name value hvalue).imp_right Eval.Invariant.Sound.value
    . exact ⟨h.name hvalue, h.value hvalue⟩
  constructor
  . exact h.closed.push houter fun name value hvalue => (hbindings name value hvalue).2.within
  . exact fun hvalue => (hbound hvalue).2
  . exact fun hvalue => (hbound hvalue).1

theorem enclose (h : store.Obeys inv) {outer : ScopeId} (houter : outer < store.frames.size) :
    (store.enclose outer).Obeys inv := by
  apply h.push
  . rintro _ ⟨⟩
    exact houter
  . nofun

theorem define (h : store.Obeys inv) (hscope : scope < store.frames.size) (hname : inv.Name name)
    (hvalue : inv.Sound store.frames.size value) :
    (store.define scope name value).Obeys inv := by
  have hbound : ∀ {other asked bound},
      (store.define scope name value).own? other asked = some bound →
      inv.Name asked ∧ inv.Value bound := by
    intro other asked bound hbound
    by_cases hother : other = scope
    . subst hother
      rw [own?_define hscope] at hbound
      split at hbound
      . next hasked =>
        cases hbound
        exact ⟨hasked ▸ hname, hvalue.value⟩
      . exact ⟨h.name hbound, h.value hbound⟩
    . rw [own?_define_of_ne hother] at hbound
      exact ⟨h.name hbound, h.value hbound⟩
  constructor
  . exact h.closed.define hscope name hvalue.within
  . exact fun hown => (hbound hown).2
  . exact fun hown => (hbound hown).1

end Obeys

end Store

/--
What a run from the store `before` on leaves of an invariant, however it ends. `P` is what is known
of its value, given the number of scopes afterwards.
-/
structure Run.Keeps {ε α : Type} (inv : Eval.Invariant) (before : Store) (P : Nat → α → Prop)
    (run : Run ε α) : Prop where
  obeys : run.store.Obeys inv
  size_le : before.frames.size ≤ run.store.frames.size
  mayGiveUp : run.outcome = .outOfFuel → inv.MayGiveUp
  applied : ∀ name count, .nativeApplied name count ∈ run.events → inv.Applied name count
  value : ∀ a, run.outcome = .value a → P run.store.frames.size a

namespace StoreM

variable {ε ε' α β : Type} {inv : Eval.Invariant} {size : Nat} {P : Nat → α → Prop}
  {Q : Nat → β → Prop}

/--
From every store on that obeys the invariant and has at least `size` scopes, the action keeps it.
-/
def Keeps (inv : Eval.Invariant) (size : Nat) (P : Nat → α → Prop) (action : StoreM ε α) : Prop :=
  ∀ store : Store, store.Obeys inv → size ≤ store.frames.size → (action store).Keeps inv store P

theorem keeps_pure {a : α} (h : ∀ more ≥ size, P more a) :
    Keeps inv size P (pure a : StoreM ε α) := by
  intro store hstore hle
  refine ⟨hstore, Nat.le_refl _, nofun, nofun, ?_⟩
  rintro _ ⟨⟩
  exact h store.frames.size hle

theorem keeps_fail (e : ε) : Keeps inv size P (fail e : StoreM ε α) := by
  intro store hstore hle
  exact ⟨hstore, Nat.le_refl _, nofun, nofun, nofun⟩

theorem keeps_report {event : Event}
    (h : ∀ name count, event = .nativeApplied name count → inv.Applied name count) :
    Keeps inv size (fun _ _ => True) (report event : StoreM ε Unit) := by
  intro store hstore hle
  refine ⟨hstore, Nat.le_refl _, nofun, ?_, fun _ _ => trivial⟩
  intro name count hmem
  exact h name count (List.mem_singleton.mp hmem).symm

theorem keeps_read {f : Store → α}
    (h : ∀ store : Store, store.Obeys inv → P store.frames.size (f store)) :
    Keeps inv size P (read f : StoreM ε α) := by
  intro store hstore hle
  refine ⟨hstore, Nat.le_refl _, nofun, nofun, ?_⟩
  rintro _ ⟨⟩
  exact h store hstore

theorem Keeps.bind {action : StoreM ε α} {f : α → StoreM ε β} (haction : action.Keeps inv size P)
    (hf : ∀ more a, size ≤ more → P more a → (f a).Keeps inv more Q) :
    (action >>= f).Keeps inv size Q := by
  intro store hstore hle
  have hrun := haction store hstore hle
  change (action.bind f store).Keeps inv store Q
  unfold StoreM.bind
  generalize action store = run at hrun
  obtain ⟨outcome, after, events⟩ := run
  cases outcome with
  | value a =>
    have hmore := hle.trans hrun.size_le
    have hnext := hf _ a hmore (hrun.value a rfl) after hrun.obeys (Nat.le_refl _)
    refine ⟨hnext.obeys, hrun.size_le.trans hnext.size_le, hnext.mayGiveUp, ?_, hnext.value⟩
    intro name count hmem
    obtain hmem | hmem := List.mem_append.mp hmem
    . exact hrun.applied name count hmem
    . exact hnext.applied name count hmem
  | error e => exact ⟨hrun.obeys, hrun.size_le, nofun, hrun.applied, nofun⟩
  | outOfFuel => exact ⟨hrun.obeys, hrun.size_le, fun _ => hrun.mayGiveUp rfl, hrun.applied, nofun⟩

theorem Keeps.mapError {action : StoreM ε α} (h : action.Keeps inv size P) (f : ε → ε') :
    (action.mapError f).Keeps inv size P := by
  intro store hstore hle
  have hrun := h store hstore hle
  unfold StoreM.mapError
  generalize action store = run at hrun
  obtain ⟨outcome, after, events⟩ := run
  cases outcome with
  | value a =>
    refine ⟨hrun.obeys, hrun.size_le, nofun, hrun.applied, ?_⟩
    rintro _ ⟨⟩
    exact hrun.value a rfl
  | error e => exact ⟨hrun.obeys, hrun.size_le, nofun, hrun.applied, nofun⟩
  | outOfFuel => exact ⟨hrun.obeys, hrun.size_le, fun _ => hrun.mayGiveUp rfl, hrun.applied, nofun⟩

end StoreM

namespace Eval

open StoreM

variable {inv : Invariant} {depth size : Nat} {scope : ScopeId}

theorem keeps_lookup (name : String) (scope : ScopeId) :
    Keeps inv size inv.Sound (Eval.lookup name scope) := by
  unfold Eval.lookup
  apply Keeps.bind (P := fun more value => ∀ e ∈ value, inv.Sound more e)
  . apply keeps_read
    intro store hstore value hvalue
    exact hstore.sound_of_lookup? hvalue
  . intro more value _ hvalue
    split
    . next e => exact keeps_pure fun most hmost => (hvalue e rfl).mono hmost
    . exact keeps_fail _

theorem keeps_define (hscope : scope < size) {name : String} (hname : inv.Name name) {value : Expr}
    (hvalue : inv.Sound size value) :
    Keeps inv size (fun _ _ => True) (Eval.define name value scope) := by
  unfold Eval.define
  apply (keeps_report (by simp)).bind
  intro more _ hle _ store hstore hmore
  have hsize := hle.trans hmore
  have hdefined := hstore.define (Nat.lt_of_lt_of_le hscope hsize) hname (hvalue.mono hsize)
  refine ⟨hdefined, ?_, nofun, nofun, fun _ _ => trivial⟩
  exact Nat.le_of_eq (Store.size_frames_define ..).symm

theorem keeps_defineAll (hscope : scope < size) {bindings : List (String × Expr)}
    (hbindings : ∀ binding ∈ bindings, inv.Name binding.1 ∧ inv.Sound size binding.2) :
    Keeps inv size (fun _ _ => True) (Eval.defineAll scope bindings) := by
  induction bindings generalizing size with
  | nil => exact keeps_pure fun _ _ => trivial
  | cons binding bindings ih =>
    obtain ⟨hfirst, hrest⟩ := List.forall_mem_cons.mp hbindings
    apply (keeps_define hscope hfirst.1 hfirst.2).bind
    intro more _ hle _
    exact ih (Nat.lt_of_lt_of_le hscope hle) fun other hother =>
      (hrest other hother).imp_right fun hsound => hsound.mono hle

theorem keeps_enclose {outer : ScopeId} (houter : outer < size) :
    Keeps inv size (fun more inner => inner < more) (Eval.enclose outer) := by
  intro store hstore hle
  refine ⟨hstore.enclose (Nat.lt_of_lt_of_le houter hle), ?_, nofun, nofun, ?_⟩
  . change store.frames.size ≤ (store.enclose outer).frames.size
    rw [Store.size_frames_enclose]
    exact Nat.le_succ _
  . rintro _ ⟨⟩
    change store.nextScope < (store.enclose outer).frames.size
    rw [Store.size_frames_enclose]
    exact Nat.lt_succ_self _

theorem keeps_checkArity (callee : Callee) (arity : Arity) (count : Nat) :
    Keeps inv size (fun _ _ => arity.Admits count) (Eval.checkArity callee arity count) := by
  unfold Eval.checkArity
  split
  . split
    . next heq => exact keeps_pure fun _ _ => heq
    . exact keeps_fail _
  . exact keeps_pure fun _ _ => trivial

theorem keeps_lambda {operands : Expr}
    (h : inv.Ready (depth + 1) size (.cons (.symbol "lambda") operands)) (hscope : scope < size) :
    Keeps inv size inv.Sound (Eval.lambda operands scope) := by
  unfold Eval.lambda
  split
  . next params body =>
    have hoperands := (Expr.within_cons.mp h.within).2
    repeat' split
    . exact keeps_fail _
    . exact keeps_fail _
    . exact keeps_fail _
    . next _ items hitems _ names hnames _ exprs hexprs =>
      have hbody := (Expr.within_cons.mp hoperands).2.of_items? hexprs
      apply (keeps_report (by simp)).bind
      intro _ _ hle _ store hstore hmore
      have hclosed := hstore.closed
      have hobeys : Store.Obeys inv { store with closures := store.closures + 1 } :=
        ⟨⟨hclosed.nested, hclosed.within⟩, hstore.value, hstore.name⟩
      refine ⟨hobeys, Nat.le_refl _, nofun, nofun, ?_⟩
      rintro _ ⟨⟩
      have hvalue := inv.closure h.code hitems hnames hexprs
      refine Invariant.Sound.mono (hle.trans hmore) ⟨?_, hvalue _ _⟩
      rw [Expr.within_closure, Expr.within_sequence]
      exact ⟨hscope, hbody⟩
  . exact keeps_fail _

section

variable {evaluator : Evaluator}
  (heval : ∀ size e scope, inv.Ready depth size e → scope < size →
    Keeps inv size inv.Sound (evaluator e scope))

include heval

theorem keeps_all (hscope : scope < size) {exprs : List Expr}
    (hexprs : ∀ e ∈ exprs, inv.Ready depth size e) :
    Keeps inv size
      (fun more values => values.length = exprs.length ∧ ∀ value ∈ values, inv.Sound more value)
      (Eval.all evaluator scope exprs) := by
  induction exprs generalizing size with
  | nil => exact keeps_pure fun _ _ => ⟨rfl, nofun⟩
  | cons e exprs ih =>
    obtain ⟨he, hrest⟩ := List.forall_mem_cons.mp hexprs
    apply (heval size e scope he hscope).bind
    intro more value hle hvalue
    have hrest := fun e he => (hrest e he).mono hle
    apply (ih (Nat.lt_of_lt_of_le hscope hle) hrest).bind
    intro most values hle hvalues
    apply keeps_pure
    intro final hfinal
    refine ⟨congrArg Nat.succ hvalues.1, ?_⟩
    rw [List.forall_mem_cons]
    exact ⟨hvalue.mono (hle.trans hfinal), fun value hmem => (hvalues.2 value hmem).mono hfinal⟩

theorem keeps_sequence (hscope : scope < size) {exprs : List Expr}
    (hexprs : ∀ e ∈ exprs, inv.Ready depth size e) :
    Keeps inv size inv.Sound (Eval.sequence evaluator scope exprs) := by
  induction exprs generalizing size with
  | nil => exact keeps_pure fun _ _ => ⟨Expr.within_nil, inv.nil⟩
  | cons e exprs ih =>
    obtain ⟨he, hrest⟩ := List.forall_mem_cons.mp hexprs
    cases exprs with
    | nil => exact heval size e scope he hscope
    | cons next exprs =>
      apply (heval size e scope he hscope).bind
      intro more _ hle _
      exact ih (Nat.lt_of_lt_of_le hscope hle) fun e he => (hrest e he).mono hle

theorem keeps_setq {operands : Expr}
    (h : inv.Ready (depth + 1) size (.cons (.symbol "setq") operands)) (hscope : scope < size) :
    Keeps inv size inv.Sound (Eval.setq evaluator operands scope) := by
  unfold Eval.setq
  split
  . next name e hitems =>
    have he := h.operands hitems e (by simp)
    have hname := inv.assigned h.code hitems
    apply (heval size e scope he hscope).bind
    intro more value hle hvalue
    apply (keeps_define (Nat.lt_of_lt_of_le hscope hle) hname hvalue).bind
    intro most _ hmost _
    exact keeps_pure fun final hfinal => hvalue.mono (hmost.trans hfinal)
  . exact keeps_fail _
  . exact keeps_fail _

theorem keeps_applyNative {f : Native} (hf : inv.Value (.native f)) (hscope : scope < size)
    {args : List Expr} (hargs : ∀ arg ∈ args, inv.Ready depth size arg) :
    Keeps inv size inv.Sound (Eval.applyNative evaluator f args scope) := by
  unfold Eval.applyNative
  apply (keeps_checkArity _ _ _).bind
  intro more _ hle hadmits
  have hargs := fun arg hmem => (hargs arg hmem).mono hle
  apply (keeps_all heval (Nat.lt_of_lt_of_le hscope hle) hargs).bind
  intro most values _ hvalues
  have hreported : ∀ name count, Event.nativeApplied f.name values.length =
      .nativeApplied name count → inv.Applied name count := by
    rintro _ _ ⟨⟩
    apply inv.applied hf
    rw [hvalues.1]
    exact hadmits
  apply (keeps_report hreported).bind
  intro final _ hfinal _
  split
  . next value hrun =>
    have hvalue := Invariant.sound_run hrun hvalues.2
    exact keeps_pure fun last hlast => hvalue.mono (hfinal.trans hlast)
  . exact keeps_fail _

theorem keeps_runBody {captured : ScopeId} (hcaptured : captured < size) {params : List String}
    (hparams : ∀ name ∈ params, inv.Name name) {body : Expr} (hbody : inv.Ready depth size body)
    {values : List Expr} (hvalues : ∀ value ∈ values, inv.Sound size value) :
    Keeps inv size inv.Sound (Eval.runBody evaluator captured params body values) := by
  unfold Eval.runBody
  apply (keeps_enclose hcaptured).bind
  intro more frame hle hframe
  -- The values were made before the frame was.
  have hbindings : ∀ binding ∈ params.zip values,
      inv.Name binding.1 ∧ inv.Sound more binding.2 := by
    intro binding hmem
    obtain ⟨hname, hvalue⟩ := List.of_mem_zip hmem
    exact ⟨hparams _ hname, (hvalues _ hvalue).mono hle⟩
  apply (keeps_defineAll hframe hbindings).bind
  intro most _ hmost _
  apply (keeps_report (by simp)).bind
  intro final _ hfinal _
  have hgrown := hmost.trans hfinal
  exact heval final body frame (hbody.mono (hle.trans hgrown)) (Nat.lt_of_lt_of_le hframe hgrown)

theorem keeps_apply {callable args : Expr} (hcallable : inv.Sound size callable)
    (hargs : ∀ items, args.items? = some items → ∀ e ∈ items, inv.Ready depth size e)
    (hscope : scope < size) :
    Keeps inv size inv.Sound (Eval.apply evaluator callable args scope) := by
  unfold Eval.apply
  split
  . exact keeps_fail _
  . next items hitems =>
    have hitems := hargs items hitems
    split
    . exact keeps_applyNative heval hcallable.value hscope hitems
    . next captured params body =>
      have hwithin := Expr.within_closure.mp hcallable.within
      unfold Eval.applyClosure
      apply (keeps_checkArity _ _ _).bind
      intro more _ hle _
      have hitems := fun item hmem => (hitems item hmem).mono hle
      apply (keeps_all heval (Nat.lt_of_lt_of_le hscope hle) hitems).bind
      intro most values hmost hvalues
      have hgrown := hle.trans hmost
      have hbody : inv.Ready depth most body :=
        ⟨hwithin.2.mono hgrown, inv.body hcallable.value depth⟩
      have hparams := inv.params hcallable.value
      exact keeps_runBody heval (Nat.lt_of_lt_of_le hwithin.1 hgrown) hparams hbody hvalues.2
    . exact keeps_fail _

theorem keeps_callInNewScope {operator args : Expr} (hoperator : inv.Ready depth size operator)
    (hargs : ∀ items, args.items? = some items → ∀ e ∈ items, inv.Ready depth size e)
    (hscope : scope < size) :
    Keeps inv size inv.Sound (Eval.callInNewScope evaluator operator args scope) := by
  unfold Eval.callInNewScope
  apply (heval size operator scope hoperator hscope).bind
  intro more callable hle hcallable
  split
  . apply (keeps_enclose (Nat.lt_of_lt_of_le hscope hle)).bind
    intro most inner hmost hinner
    have hargs := fun items hitems e he => (hargs items hitems e he).mono (hle.trans hmost)
    exact keeps_apply heval (hcallable.mono hmost) hargs hinner
  . exact keeps_fail _

theorem keeps_callInPlace {operator args : Expr} (hoperator : inv.Ready depth size operator)
    (hargs : ∀ items, args.items? = some items → ∀ e ∈ items, inv.Ready depth size e)
    (hscope : scope < size) :
    Keeps inv size inv.Sound (Eval.callInPlace evaluator operator args scope) := by
  unfold Eval.callInPlace
  apply (heval size operator scope hoperator hscope).bind
  intro more callable hle hcallable
  have hargs := fun items hitems e he => (hargs items hitems e he).mono hle
  exact keeps_apply heval hcallable hargs (Nat.lt_of_lt_of_le hscope hle)

theorem keeps_call {operator operands : Expr}
    (h : inv.Ready (depth + 1) size (.cons operator operands)) (hscope : scope < size) :
    Keeps inv size inv.Sound (Eval.call evaluator operator operands scope) := by
  have hoperands : ∀ items, operands.items? = some items → ∀ e ∈ items, inv.Ready depth size e :=
    fun _ => h.operands
  unfold Eval.call
  split
  . split
    . next hname =>
      subst hname
      exact keeps_lambda h hscope
    . split
      . next hname =>
        subst hname
        exact keeps_setq heval h hscope
      . exact keeps_callInNewScope heval h.operator hoperands hscope
  . exact keeps_callInPlace heval h.operator hoperands hscope
  . exact keeps_callInNewScope heval h.operator hoperands hscope

theorem keeps_step {e : Expr} (h : inv.Ready (depth + 1) size e) (hscope : scope < size) :
    Keeps inv size inv.Sound (Eval.step evaluator e scope) := by
  cases e with
  | symbol name => exact keeps_lookup name scope
  | quoted inner =>
    have hinner : inv.Sound size inner := ⟨Expr.within_quoted.mp h.within, inv.quoted h.code⟩
    exact keeps_pure fun more hle => hinner.mono hle
  | sequence exprs => exact keeps_sequence heval hscope h.members
  | cons operator operands => exact keeps_call heval h hscope
  | _ =>
    have hvalue : inv.Sound size _ := ⟨h.within, inv.atom h.code rfl⟩
    exact keeps_pure fun more hle => hvalue.mono hle

end

namespace Invariant

variable (inv)

/--
Every evaluation of code keeps the invariant, and its value obeys it.
-/
theorem keeps_evaluate (depth : Nat) {size : Nat} {e : Expr} {scope : ScopeId}
    (h : inv.Ready depth size e) (hscope : scope < size) :
    Keeps inv size inv.Sound (evaluate depth e scope) := by
  induction depth generalizing size e scope with
  | zero =>
    intro store hstore _
    exact ⟨hstore, Nat.le_refl _, fun _ => inv.giveUp h.code, nofun, nofun⟩
  | succ depth ih => exact keeps_step (fun _ _ _ => ih) h hscope

end Invariant

end Eval

end ChatLisp
