import ChatLisp.Proofs.Program.Joining

/-!
This module contains the texts that are refused before anything runs. Running a program refuses the
texts that the parser refuses, for the same reason, and besides them the texts without an
expression. A text that is not refused can only fail in the evaluator.
-/

namespace ChatLisp

/--
Whether the error comes from reading the text, and not from evaluating it.
-/
def ProgramError.isSyntax : ProgramError → Bool
  | token _ => true
  | parse _ => true
  | eval _ => false

theorem SyntaxError.isSyntax_toProgramError (e : SyntaxError) : e.toProgramError.isSyntax := by
  cases e with
  | token error => rfl
  | parse error => rfl

namespace Program

open StoreM

/--
The run failed without a trace: the store is as it was, and no evaluation was begun.
-/
structure Refused (e : ProgramError) (before : Store) (run : Run ProgramError Expr) : Prop where
  outcome : run.outcome = .error e
  store : run.store = before
  events : ∀ count, .evaluating count ∉ run.events

variable {text : String} (depth : Nat) (scope : ScopeId) (store : Store)

theorem refused_of_parse_error {e : SyntaxError} (h : parse text = .error e) :
    Refused e.toProgramError store (run depth text scope store) := by
  cases e with
  | token error =>
    unfold run
    rw [parse_eq_token_error_iff.mp h]
    exact ⟨rfl, rfl, by simp [fail]⟩
  | parse error =>
    obtain ⟨tokens, htokens, hread⟩ := parse_eq_parse_error_iff.mp h
    unfold run
    simp only [htokens, hread]
    exact ⟨rfl, rfl, by simp [report, fail, bind, StoreM.bind]⟩

theorem refused_of_parse_nil (h : parse text = .ok []) :
    Refused (.parse .emptyInput) store (run depth text scope store) := by
  obtain ⟨tokens, htokens, hread⟩ := parse_eq_ok_iff.mp h
  unfold run
  simp only [htokens, hread]
  exact ⟨rfl, rfl, by simp [report, fail, bind, StoreM.bind]⟩

theorem outcome_of_parse_ok {exprs : List Expr} (h : parse text = .ok exprs) (hexprs : exprs ≠ []) :
    (run depth text scope store).outcome = .outOfFuel ∨
      (∃ value, (run depth text scope store).outcome = .value value) ∨
      ∃ e, (run depth text scope store).outcome = .error (.eval e) := by
  rw [(run_eq_values h hexprs depth scope store).1, values, outcome_mapError]
  cases (Eval.sequence (evaluate depth) scope exprs store).outcome with
  | value value => exact .inr (.inl ⟨value, rfl⟩)
  | error e => exact .inr (.inr ⟨e, rfl⟩)
  | outOfFuel => exact .inl rfl

/--
A text with a syntax error anywhere does not run, and neither does one without an expression.
Running it fails with the parser's error and leaves the store alone. If any other text ends, then
with a value or an error of the evaluator.
-/
theorem refused_iff (text : String) :
    let run := run depth text scope store
    ((∃ e, run.outcome = .error e ∧ e.isSyntax) ↔
      (∃ e, parse text = .error e) ∨ parse text = .ok []) ∧
    (∀ e, parse text = .error e → Refused e.toProgramError store run) ∧
    (parse text = .ok [] → Refused (.parse .emptyInput) store run) ∧
    (¬ ((∃ e, parse text = .error e) ∨ parse text = .ok []) → run.outcome ≠ .outOfFuel →
      (∃ value, run.outcome = .value value) ∨ ∃ e, run.outcome = .error (.eval e)) := by
  intro run
  have herror : ∀ e, parse text = .error e → Refused e.toProgramError store run :=
    fun _ => refused_of_parse_error depth scope store
  have hnil : parse text = .ok [] → Refused (.parse .emptyInput) store run :=
    refused_of_parse_nil depth scope store
  have hsyntax : (∃ e, parse text = .error e) ∨ parse text = .ok [] →
      ∃ e, run.outcome = .error e ∧ e.isSyntax := by
    rintro (⟨e, he⟩ | hempty)
    . exact ⟨_, (herror e he).outcome, e.isSyntax_toProgramError⟩
    . exact ⟨_, (hnil hempty).outcome, rfl⟩
  have hother : ¬ ((∃ e, parse text = .error e) ∨ parse text = .ok []) →
      run.outcome = .outOfFuel ∨ (∃ value, run.outcome = .value value) ∨
        ∃ e, run.outcome = .error (.eval e) := by
    intro h
    rw [not_or, not_exists] at h
    cases hparse : parse text with
    | error e => exact absurd hparse (h.1 e)
    | ok exprs =>
      apply outcome_of_parse_ok depth scope store hparse
      rintro rfl
      exact h.2 hparse
  refine ⟨⟨?_, hsyntax⟩, herror, hnil, ?_⟩
  . rintro ⟨e, he, hkind⟩
    by_contra h
    obtain hend | ⟨value, hvalue⟩ | ⟨error, heval⟩ := hother h
    . cases he.symm.trans hend
    . cases he.symm.trans hvalue
    . cases he.symm.trans heval
      cases hkind
  . intro h hend
    exact (hother h).resolve_left hend

end Program

end ChatLisp
