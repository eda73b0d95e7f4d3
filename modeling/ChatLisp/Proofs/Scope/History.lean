import ChatLisp.Proofs.Program.Invariant

/-!
This module contains the histories of a store: what a host may do with the scopes of it, in any
order and any number of times. The store stays closed in every history, no scope is lost or moved
into another one, and the way from a scope outwards ends in a root.
-/

namespace ChatLisp

def Outcome.value? {ε α : Type} : Outcome ε α → Option α
  | value a => some a
  | error _ => none
  | outOfFuel => none

/--
Nothing is known but that stores stay closed.
-/
def Eval.Invariant.closedness : Eval.Invariant where
  Code _ _ := True
  Value _ := True
  Name _ := True
  Applied _ _ := True
  MayGiveUp := True
  giveUp _ := trivial
  atom _ _ := trivial
  quoted _ := trivial
  member _ _ _ := trivial
  operator _ := trivial
  operand _ _ _ _ := trivial
  closure _ _ _ _ _ _ := trivial
  assigned _ _ := trivial
  params _ _ _ := trivial
  body _ _ := trivial
  nil := trivial
  integer _ := trivial
  cons_iff := ⟨fun _ => ⟨trivial, trivial⟩, fun _ => trivial⟩
  applied _ _ := trivial

namespace Store

theorem Closed.obeys {store : Store} (h : store.Closed) : store.Obeys .closedness :=
  ⟨h, fun _ => trivial, fun _ => trivial⟩

/--
The frames on the way from a scope outwards, up to and including that of a root.
-/
inductive Path (store : Store) : ScopeId → List Frame → Prop
  | root {scope : ScopeId} {frame : Frame} :
    store.frames[scope]? = some frame → frame.outer = none → Path store scope [frame]
  | inner {scope outer : ScopeId} {frame : Frame} {frames : List Frame} :
    store.frames[scope]? = some frame → frame.outer = some outer → Path store outer frames →
      Path store scope (frame :: frames)

theorem Closed.path_chain {store : Store} (h : store.Closed) {scope : ScopeId}
    (hscope : scope < store.frames.size) :
    store.Path scope (store.chain scope) := by
  induction scope using Nat.strong_induction_on with
  | _ scope ih =>
    have hframe := Array.getElem?_eq_getElem hscope
    rw [chain, hframe]
    dsimp only
    split
    . next hroot => exact .root hframe hroot
    . next outer houter =>
      have hlt : outer < scope := by
        apply h.nested
        rw [outer?, hframe]
        exact houter
      rw [if_pos hlt]
      exact .inner hframe houter (ih outer hlt (hlt.trans hscope))

theorem sameOuters_push (store : Store) (frame : Frame) :
    store.SameOuters (store.push frame) := by
  constructor
  . simp [push]
  . intro scope hscope
    have hne : scope ≠ store.nextScope := Nat.ne_of_lt hscope
    rw [outer?, outer?, getElem?_frames_push, if_neg hne]

/--
What a host may do with a store.
-/
inductive Operation where
  | addRoot
  | addGlobal
  | enclose (outer : ScopeId)
  | define (scope : ScopeId) (name : String) (value : Expr)
  | run (depth : Nat) (text : String) (scope : ScopeId)
  | evaluate (depth : Nat) (e : Expr) (scope : ScopeId)
  | apply (depth : Nat) (callable args : Expr) (scope : ScopeId)

/--
The store after some operations, and the values that they gave back.
-/
structure History where
  store : Store
  values : List Expr

namespace Operation

/--
The operation takes place in a scope of the store, and its expressions lead to no other scopes.
-/
def Fits (store : Store) : Operation → Prop
  | addRoot => True
  | addGlobal => True
  | enclose outer => outer < store.frames.size
  | define scope _ value => scope < store.frames.size ∧ value.Within store.frames.size
  | run _ _ scope => scope < store.frames.size
  | evaluate _ e scope => scope < store.frames.size ∧ e.Within store.frames.size
  | apply _ callable args scope =>
    scope < store.frames.size ∧ callable.Within store.frames.size ∧ args.Within store.frames.size

def perform (store : Store) : Operation → History
  | addRoot => ⟨store.addRoot, []⟩
  | addGlobal => ⟨store.addGlobal, []⟩
  | enclose outer => ⟨store.enclose outer, []⟩
  | define scope name value => ⟨store.define scope name value, []⟩
  | run depth text scope =>
    let run := Program.run depth text scope store
    ⟨run.store, run.outcome.value?.toList⟩
  | evaluate depth e scope =>
    let run := ChatLisp.evaluate depth e scope store
    ⟨run.store, run.outcome.value?.toList⟩
  | apply depth callable args scope =>
    let run := ChatLisp.apply depth callable args scope store
    ⟨run.store, run.outcome.value?.toList⟩

/--
Perform operations in turn.
-/
def performAll (store : Store) : List Operation → History
  | [] => ⟨store, []⟩
  | operation :: operations =>
    let first := operation.perform store
    let others := performAll first.store operations
    ⟨others.store, first.values ++ others.values⟩

/--
Each operation fits the store that those before it leave.
-/
def AllFit (store : Store) : List Operation → Prop
  | [] => True
  | operation :: operations =>
    operation.Fits store ∧ AllFit (operation.perform store).store operations

end Operation

/--
What every operation keeps of a closed store.
-/
structure History.Regular (before : Store) (history : History) : Prop where
  closed : history.store.Closed
  sameOuters : before.SameOuters history.store
  within : ∀ value ∈ history.values, value.Within history.store.frames.size

end Store

theorem Run.Keeps.regular {ε : Type} {inv : Eval.Invariant} {before : Store} {run : Run ε Expr}
    (h : run.Keeps inv before inv.Sound) (houters : before.SameOuters run.store) :
    Store.History.Regular before ⟨run.store, run.outcome.value?.toList⟩ := by
  refine ⟨h.obeys.closed, houters, ?_⟩
  intro value hvalue
  apply Eval.Invariant.Sound.within
  apply h.value
  cases heq : run.outcome <;> simp_all [Outcome.value?]

namespace Store

variable {store : Store}

theorem regular_push {frame : Frame} (hclosed : (store.push frame).Closed) :
    History.Regular store ⟨store.push frame, []⟩ :=
  ⟨hclosed, sameOuters_push store frame, List.forall_mem_nil _⟩

namespace Operation

open Eval.Invariant

theorem regular_perform (h : store.Closed) {operation : Operation} (hfits : operation.Fits store) :
    (operation.perform store).Regular store := by
  have hobeys := h.obeys
  cases operation with
  | addRoot => exact regular_push (h.push nofun nofun)
  | addGlobal => exact regular_push h.addGlobal
  | enclose outer => exact regular_push (h.enclose hfits)
  | define scope name value =>
    refine ⟨h.define hfits.1 name hfits.2, ?_, List.forall_mem_nil _⟩
    exact change_sameOuters.define scope store name value
  | run depth text scope =>
    have hcode : ∀ e ∈ Program.exprs text, closedness.Code depth e := fun _ _ => trivial
    apply (Program.keeps_run hcode hfits store hobeys (Nat.le_refl _)).regular
    apply change_sameOuters.run
  | evaluate depth e scope =>
    have hready : closedness.Ready depth store.frames.size e := ⟨hfits.2, trivial⟩
    apply (closedness.keeps_evaluate depth hready hfits.1 store hobeys (Nat.le_refl _)).regular
    apply change_sameOuters.evaluate
  | apply depth callable args scope =>
    obtain ⟨hscope, hcallable, hargs⟩ := hfits
    have hready : ∀ items, args.items? = some items →
        ∀ e ∈ items, closedness.Ready depth store.frames.size e :=
      fun items hitems e he => ⟨hargs.of_items? hitems e he, trivial⟩
    have hkeeps := Eval.keeps_apply (fun _ _ _ => closedness.keeps_evaluate depth)
      ⟨hcallable, trivial⟩ hready hscope
    apply (hkeeps store hobeys (Nat.le_refl _)).regular
    apply change_sameOuters.apply
    apply change_sameOuters.evaluate

theorem regular_performAll (h : store.Closed) {operations : List Operation}
    (hfit : AllFit store operations) :
    (performAll store operations).Regular store := by
  induction operations generalizing store with
  | nil => exact ⟨h, ⟨Nat.le_refl _, fun _ _ => rfl⟩, List.forall_mem_nil _⟩
  | cons operation operations ih =>
    have hfirst := regular_perform h hfit.1
    have hothers := ih hfirst.closed hfit.2
    refine ⟨hothers.closed, hfirst.sameOuters.trans hothers.sameOuters, ?_⟩
    intro value hvalue
    obtain hvalue | hvalue := List.mem_append.mp hvalue
    . exact (hfirst.within value hvalue).mono hothers.sameOuters.size_le
    . exact hothers.within value hvalue

theorem store_performAll_append (before later : List Operation) :
    (performAll store (before ++ later)).store =
      (performAll (performAll store before).store later).store := by
  induction before generalizing store with
  | nil => rfl
  | cons operation before ih => exact ih

theorem allFit_append {before later : List Operation} :
    AllFit store (before ++ later) ↔
      AllFit store before ∧ AllFit (performAll store before).store later := by
  induction before generalizing store with
  | nil => exact iff_of_eq (true_and _).symm
  | cons operation before ih => simp only [List.cons_append, AllFit, ih, and_assoc, performAll]

/--
In every history the scopes form a tree that only grows: a scope lies in an earlier one, and in the
same one forever. The closures in bindings and in values that were given back were made in scopes of
the store. So the way from a scope outwards ends, and what is asked of a scope is answered on it.
-/
theorem performAll_wellFormed {before later : List Operation}
    (hfit : AllFit Store.empty (before ++ later)) :
    let early := (performAll Store.empty before).store
    let late := performAll Store.empty (before ++ later)
    late.store.Closed ∧ early.SameOuters late.store ∧
    (∀ value ∈ late.values, value.Within late.store.frames.size) ∧
    ∀ scope < late.store.frames.size, ∃ frames, late.store.Path scope frames ∧
      (∀ name, late.store.lookup? scope name =
        frames.findSome? fun frame => frame.bindings.get? name) ∧
      ∀ name, name ∈ late.store.names scope ↔ ∃ frame ∈ frames, name ∈ frame.bindings.names := by
  intro early late
  have hlate := regular_performAll closed_empty hfit
  rw [allFit_append] at hfit
  have hearly := regular_performAll closed_empty hfit.1
  refine ⟨hlate.closed, ?_, hlate.within, ?_⟩
  . rw [show late.store = _ from store_performAll_append before later]
    exact (regular_performAll hearly.closed hfit.2).sameOuters
  . intro scope hscope
    refine ⟨late.store.chain scope, hlate.closed.path_chain hscope, fun _ => rfl, ?_⟩
    intro name
    simp only [names, List.mem_mergeSort, List.mem_eraseDups, List.mem_flatMap]

theorem performAll_wellFormed_stored_closure :
    let before := [addGlobal, run 6 "(setq f (lambda (x) (setq f (lambda () f))))" 0, enclose 0]
    let later := [run 6 "(setq g (f '(1)))" 1, evaluate 6 (.symbol "h") 1,
      define 1 "h" (.closure 7 1 [] (.symbol "f")), apply 6 (.closure 8 1 [] (.symbol "h")) .nil 0]
    let late := performAll Store.empty (before ++ later)
    AllFit Store.empty (before ++ later) ∧ late.store.frames.size = 5 ∧ late.store.Closed ∧
      (performAll Store.empty before).store.SameOuters late.store := by
  intro before later late
  have hfit : AllFit Store.empty (before ++ later) := by
    have hsymbol : ∀ name size, (Expr.symbol name).Within size :=
      fun _ _ => List.forall_mem_nil _
    refine ⟨trivial, by cbv, by cbv, by cbv, ⟨by cbv, hsymbol _ _⟩, ⟨by cbv, ?_⟩,
      ⟨by cbv, ?_, Expr.within_nil⟩, trivial⟩
    . exact Expr.within_closure.mpr ⟨by cbv, hsymbol _ _⟩
    . exact Expr.within_closure.mpr ⟨by cbv, hsymbol _ _⟩
  have hwellFormed := performAll_wellFormed hfit
  exact ⟨hfit, by cbv, hwellFormed.1, hwellFormed.2.1⟩

end Operation

end Store

end ChatLisp
