import ChatLisp.Program
import ChatLisp.Proofs.Parser.Shifting

/-!
This module contains the running of two programs as one text. With blanks between them, the tokens
and the expressions of the joined text are those of the first one and then those of the second one,
and so is what happens when they are evaluated.
-/

namespace ChatLisp

theorem parse_join {a w b : String} {front back : List Expr} (ha : parse a = .ok front)
    (hb : parse b = .ok back) (hw : w ≠ "") (hblank : ∀ c ∈ w.toList, isBlank c) :
    parse (a ++ w ++ b) = .ok (front ++ back) := by
  obtain ⟨tokens, htokens, hfront⟩ := parse_eq_ok_iff.mp ha
  obtain ⟨more, hmore, hback⟩ := parse_eq_ok_iff.mp hb
  have hclosed := not_isOpen_of_nesting (Parser.nesting_of_readAll_ok hfront)
  apply parse_eq_ok_iff.mpr
  refine ⟨tokens ++ more.map (Token.shift (byteLength (a ++ w).toList)), ?_, ?_⟩
  . rw [tokenize_join htokens hclosed hw hblank, hmore]
    rfl
  . rw [Parser.readAll_append hfront, Parser.readAll_shift, hback]
    rfl

theorem Eval.sequence_append (evaluator : Evaluator) (scope : ScopeId) {front back : List Expr}
    (hfront : front ≠ []) (hback : back ≠ []) :
    sequence evaluator scope (front ++ back) =
      sequence evaluator scope front >>= fun _ => sequence evaluator scope back := by
  induction front with
  | nil => exact absurd rfl hfront
  | cons e rest ih =>
    cases rest with
    | nil =>
      obtain ⟨first, rest, rfl⟩ := List.exists_cons_of_ne_nil hback
      rfl
    | cons next rest =>
      have hcons : sequence evaluator scope (e :: next :: rest) =
          evaluator e scope >>= fun _ => sequence evaluator scope (next :: rest) := rfl
      rw [hcons, bind_assoc, ← ih nofun]
      rfl

namespace Program

open StoreM

/--
The evaluation of a program's expressions, without what is reported before it.
-/
def values (depth : Nat) (exprs : List Expr) (scope : ScopeId) : StoreM ProgramError Expr :=
  (Eval.sequence (evaluate depth) scope exprs).mapError .eval

theorem values_append {front back : List Expr} (hfront : front ≠ []) (hback : back ≠ [])
    (depth : Nat) (scope : ScopeId) :
    values depth (front ++ back) scope =
      values depth front scope >>= fun _ => values depth back scope := by
  rw [values, Eval.sequence_append _ _ hfront hback, mapError_bind]
  rfl

/--
What the expressions of a program report, behind the counts of its tokens and of its expressions.
-/
def reported (run : Run ProgramError Expr) : List Event :=
  run.events.drop 2

theorem run_eq_values {text : String} {exprs : List Expr} (hparse : parse text = .ok exprs)
    (hexprs : exprs ≠ []) (depth : Nat) (scope : ScopeId) (store : Store) :
    (run depth text scope store).outcome = (values depth exprs scope store).outcome ∧
      (run depth text scope store).store = (values depth exprs scope store).store ∧
      reported (run depth text scope store) = (values depth exprs scope store).events := by
  obtain ⟨tokens, htokens, hread⟩ := parse_eq_ok_iff.mp hparse
  obtain ⟨e, rest, rfl⟩ := List.exists_cons_of_ne_nil hexprs
  have hrun : run depth text scope =
      (report (.tokenized tokens.length) >>= fun _ => runExprs depth (e :: rest) scope) := by
    rw [run, htokens]
    simp only [hread]
  rw [hrun]
  simp only [runExprs]
  exact ⟨rfl, rfl, rfl⟩

/--
Running two programs as one text, with blanks between them, is running one after the other. If the
first one does not end in a value, nothing of the second one runs.
-/
theorem run_join {a w b : String} {front back : List Expr} (ha : parse a = .ok front)
    (hfront : front ≠ []) (hb : parse b = .ok back) (hback : back ≠ []) (hw : w ≠ "")
    (hblank : ∀ c ∈ w.toList, isBlank c) (depth : Nat) (scope : ScopeId) (store : Store) :
    let joint := run depth (a ++ w ++ b) scope store
    let first := run depth a scope store
    match first.outcome with
    | .value _ =>
      let second := run depth b scope first.store
      joint.outcome = second.outcome ∧ joint.store = second.store ∧
        reported joint = reported first ++ reported second
    | .error e => joint.outcome = .error e ∧ joint.store = first.store ∧
        reported joint = reported first
    | .outOfFuel => joint.outcome = .outOfFuel ∧ joint.store = first.store ∧
        reported joint = reported first := by
  have hparse := parse_join ha hb hw hblank
  have hne : front ++ back ≠ [] := List.append_ne_nil_of_left_ne_nil hfront back
  obtain ⟨hjoint, hjointStore, hjointEvents⟩ := run_eq_values hparse hne depth scope store
  obtain ⟨hfirst, hfirstStore, hfirstEvents⟩ := run_eq_values ha hfront depth scope store
  have hbind : values depth (front ++ back) scope store =
      (values depth front scope).bind (fun _ => values depth back scope) store :=
    congrFun (values_append hfront hback depth scope) store
  dsimp only
  rw [hjoint, hjointStore, hjointEvents, hfirst, hfirstStore, hfirstEvents, hbind, StoreM.bind]
  cases values depth front scope store with
  | mk outcome after events =>
    cases outcome with
    | value v =>
      obtain ⟨hsecond, hsecondStore, hsecondEvents⟩ := run_eq_values hb hback depth scope after
      dsimp only
      rw [hsecond, hsecondStore, hsecondEvents]
      exact ⟨rfl, rfl, rfl⟩
    | error e => exact ⟨rfl, rfl, rfl⟩
    | outOfFuel => exact ⟨rfl, rfl, rfl⟩

theorem run_join_assigned :
    let scope := Store.empty.nextScope
    let store := Store.empty.addGlobal
    let first := run 4 "(setq x '(5)) x" scope store
    let second := run 4 "(car x)" scope first.store
    let joint := run 4 ("(setq x '(5)) x" ++ "\n" ++ "(car x)") scope store
    first.outcome = .value (.cons (.integer 5) .nil) ∧ second.outcome = .value (.integer 5) ∧
      joint.outcome = second.outcome ∧ joint.store = second.store ∧
      reported joint = reported first ++ reported second := by
  have ha : parse "(setq x '(5)) x" = .ok [.ofList [.symbol "setq", .symbol "x",
      .quoted (.ofList [.integer 5])], .symbol "x"] := by
    cbv
  have hb : parse "(car x)" = .ok [.ofList [.symbol "car", .symbol "x"]] := by cbv
  have hw : "\n" ≠ "" := by decide
  have hfirst : (run 4 "(setq x '(5)) x" Store.empty.nextScope Store.empty.addGlobal).outcome =
      .value (.cons (.integer 5) .nil) := by
    cbv
  have hjoin := run_join ha (by simp) hb (by simp) hw (by simp [isBlank]) 4
    Store.empty.nextScope Store.empty.addGlobal
  dsimp only at hjoin
  rw [hfirst] at hjoin
  exact ⟨hfirst, by cbv, hjoin⟩

end Program

end ChatLisp
