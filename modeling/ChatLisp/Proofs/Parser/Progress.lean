import Mathlib
import ChatLisp.Proofs.Parser.Language

/-!
This module contains what more tokens can change of the outcome of reading one expression, and how
many tokens are taken. An error at the end of the tokens is one that some further tokens mend, every
other outcome is there to stay. Each call takes a token if there is one, so the end is reached in
spite of errors.
-/

namespace ChatLisp

namespace ParseError

/--
The errors for tokens that stop too early.
-/
def AtEnd (e : ParseError) : Prop :=
  (∃ expected, e = .unexpectedEnd expected) ∨ ∃ span, e = .emptyQuote span

/--
The errors for a token that cannot stand where it stands.
-/
def AtToken (e : ParseError) : Prop :=
  (∃ found, e = .unexpectedToken found) ∨ ∃ span, e = .invalidDot span

theorem AtEnd.not_atToken {e : ParseError} (h : e.AtEnd) : ¬ e.AtToken := by
  rcases h with ⟨_, rfl⟩ | ⟨_, rfl⟩
  . simp [AtToken]
  . simp [AtToken]

end ParseError

namespace Parser

theorem State.atEnd_endError (state : State) : state.endError.AtEnd := by
  unfold State.endError ParseError.AtEnd
  split
  all_goals simp

theorem complete_ne_fail (e : Expr) (pending : List Pending) (error : ParseError) :
    complete e pending ≠ .fail error := by
  fun_induction complete e pending with
  | case4 e pending extra first last ih => exact ih
  | _ => nofun

theorem atToken_of_readDot {span : Span} {pending : List Pending} {error : ParseError}
    (h : readDot span pending = .fail error) :
    error.AtToken := by
  unfold readDot at h
  split at h
  . cases h
    exact .inr ⟨_, rfl⟩
  . cases h
  . cases h
    exact .inr ⟨_, rfl⟩
  . exact absurd h (complete_ne_fail _ _ _)

theorem atToken_of_readRightParen {span : Span} {pending : List Pending} {error : ParseError}
    (h : readRightParen span pending = .fail error) :
    error.AtToken := by
  unfold readRightParen at h
  split at h
  . exact absurd h (complete_ne_fail _ _ _)
  . cases h
    exact .inr ⟨_, rfl⟩
  . cases h
    exact .inl ⟨_, rfl⟩

theorem readQuote_ne_fail (span : Span) (pending : List Pending) (error : ParseError) :
    readQuote span pending ≠ .fail error := by
  unfold readQuote
  split
  . nofun
  . nofun

theorem State.atToken_of_step {state : State} {token : Token} {error : ParseError}
    (h : state.step token = .fail error) :
    error.AtToken := by
  unfold State.step at h
  cases state with
  | reading pending =>
    cases hkind : token.kind with
    | leftParen => simp [hkind] at h
    | rightParen =>
      rw [hkind] at h
      exact atToken_of_readRightParen h
    | dot =>
      rw [hkind] at h
      exact atToken_of_readDot h
    | quote =>
      rw [hkind] at h
      exact absurd h (readQuote_ne_fail _ _ _)
    | invalid text =>
      rw [hkind] at h
      cases h
      exact .inl ⟨_, rfl⟩
    | _ =>
      rw [hkind] at h
      exact absurd h (complete_ne_fail _ _ _)
  | closing items tail dot pending =>
    cases hkind : token.kind with
    | rightParen =>
      rw [hkind] at h
      exact absurd h (complete_ne_fail _ _ _)
    | _ =>
      rw [hkind] at h
      cases h
      exact .inr ⟨_, rfl⟩

theorem State.run_cases (state : State) (tokens : List Token) :
    (∃ reached : State, state.run tokens = ⟨.error reached.endError, []⟩ ∧
      ∀ more, state.run (tokens ++ more) = reached.run more) ∨
    (∀ e, (state.run tokens).outcome = .error e → e.AtToken) ∧
      ∀ more, state.run (tokens ++ more) =
        ⟨(state.run tokens).outcome, (state.run tokens).rest ++ more⟩ := by
  induction tokens generalizing state with
  -- The tokens end here, and further ones go on from this very state.
  | nil => exact .inl ⟨state, rfl, fun _ => rfl⟩
  | cons token tokens ih =>
    simp only [List.cons_append, State.run]
    cases hstep : state.step token with
    | more next => exact ih next
    | done e =>
      right
      constructor
      . rintro _ ⟨⟩
      . intro more
        rfl
    | fail error =>
      right
      constructor
      . rintro _ ⟨⟩
        exact State.atToken_of_step hstep
      . intro more
        rfl

theorem State.exists_append_rest_run (state : State) (tokens : List Token) :
    ∃ taken, tokens = taken ++ (state.run tokens).rest := by
  induction tokens generalizing state with
  | nil => exact ⟨[], rfl⟩
  | cons token tokens ih =>
    simp only [State.run]
    cases state.step token with
    | more next =>
      obtain ⟨taken, htaken⟩ := ih next
      exact ⟨token :: taken, congrArg (token :: ·) htaken⟩
    | done e => exact ⟨[token], rfl⟩
    | fail error => exact ⟨[token], rfl⟩

theorem exists_run_complete (e : Expr) (pending : List Pending) :
    ∃ tokens whole, (complete e pending).run tokens = ⟨.ok whole, []⟩ := by
  -- What is open is closed from the inside out.
  induction pending generalizing e with
  | nil => exact ⟨[], e, rfl⟩
  | cons innermost pending ih =>
    let right : Token := ⟨.rightParen, default⟩
    cases innermost with
    | list items =>
      obtain ⟨tokens, whole, hrun⟩ := ih (.ofList (e :: items).reverse)
      exact ⟨right :: tokens, whole, hrun⟩
    | tail items dot =>
      obtain ⟨tokens, whole, hrun⟩ := ih (.ofListWithTail items.reverse e)
      exact ⟨right :: tokens, whole, hrun⟩
    | quotes extra first last => exact ih (quoteTimes (extra + 1) e)

theorem State.exists_run (state : State) :
    ∃ tokens whole, state.run tokens = ⟨.ok whole, []⟩ := by
  cases state with
  | reading pending =>
    obtain ⟨tokens, whole, hrun⟩ := exists_run_complete (.symbol "x") pending
    exact ⟨⟨.symbol "x", default⟩ :: tokens, whole, hrun⟩
  | closing items tail dot pending =>
    obtain ⟨tokens, whole, hrun⟩ :=
      exists_run_complete (.ofListWithTail items.reverse tail) pending
    exact ⟨⟨.rightParen, default⟩ :: tokens, whole, hrun⟩

/--
A call either stops because the tokens do, and some further tokens would have let it succeed, or its
outcome does not depend on what stands behind the tokens that it took.
-/
theorem readExpr_cases (tokens : List Token) :
    (∃ e, readExpr tokens = ⟨.error e, []⟩ ∧ e.AtEnd ∧
      ∃ more whole rest, readExpr (tokens ++ more) = ⟨.ok whole, rest⟩) ∨
    (∀ e, (readExpr tokens).outcome = .error e → e.AtToken) ∧
      ∀ more, readExpr (tokens ++ more) =
        ⟨(readExpr tokens).outcome, (readExpr tokens).rest ++ more⟩ := by
  obtain ⟨reached, hrun, hmore⟩ | hdecided := State.run_cases (.reading []) tokens
  . obtain ⟨more, whole, hwhole⟩ := reached.exists_run
    have hmended : readExpr (tokens ++ more) = ⟨.ok whole, []⟩ := (hmore more).trans hwhole
    exact .inl ⟨_, hrun, reached.atEnd_endError, more, whole, [], hmended⟩
  . exact .inr hdecided

theorem exists_taken (tokens : List Token) :
    ∃ taken, tokens = taken ++ (readExpr tokens).rest ∧ (tokens ≠ [] → taken ≠ []) := by
  obtain ⟨taken, htaken⟩ := State.exists_append_rest_run (.reading []) tokens
  refine ⟨taken, htaken, ?_⟩
  rintro hne rfl
  cases tokens with
  | nil => exact hne rfl
  | cons token tokens =>
    have hlt := length_rest_readExpr_lt token tokens
    have hlength : _ = (readExpr (token :: tokens)).rest.length := congrArg List.length htaken
    omega

theorem rest_readExpr_iterate (tokens : List Token) {calls : Nat} (hcalls : tokens.length ≤ calls) :
    (fun left => (readExpr left).rest)^[calls] tokens = [] := by
  induction calls generalizing tokens with
  | zero => exact List.length_eq_zero_iff.mp (Nat.le_zero.mp hcalls)
  | succ calls ih =>
    rw [Function.iterate_succ_apply]
    apply ih
    -- Each call takes a token, if there is one left.
    cases tokens with
    | nil => exact Nat.zero_le calls
    | cons token tokens =>
      have hlt := length_rest_readExpr_lt token tokens
      omega

/--
The errors at the end of the tokens are those that further tokens can mend, and they come when all
tokens are taken. All other outcomes stay, with the tokens taken, whatever stands behind them.
-/
theorem readExpr_decided (tokens : List Token) :
    let reading := readExpr tokens
    ((∃ e, reading.outcome = .error e ∧ e.AtEnd) ↔
      (∃ e, reading.outcome = .error e) ∧
        ∃ more whole rest, readExpr (tokens ++ more) = ⟨.ok whole, rest⟩) ∧
    ((∀ e, reading.outcome = .error e → e.AtToken) →
      ∀ more, readExpr (tokens ++ more) = ⟨reading.outcome, reading.rest ++ more⟩) ∧
    (∀ e, reading.outcome = .error e → e.AtEnd ∨ e.AtToken) ∧
    ((∃ e, reading.outcome = .error e ∧ e.AtEnd) → reading.rest = []) ∧
    (∃ taken, tokens = taken ++ reading.rest ∧ (tokens ≠ [] → taken ≠ [])) ∧
    (fun left => (readExpr left).rest)^[tokens.length] tokens = [] := by
  have htaken := exists_taken tokens
  have hcalls := rest_readExpr_iterate tokens (Nat.le_refl _)
  obtain ⟨e, hreading, hend, hmended⟩ | ⟨hdecided, hmore⟩ := readExpr_cases tokens
  . rw [hreading] at htaken ⊢
    refine ⟨⟨?_, ?_⟩, ?_, ?_, ?_, htaken, hcalls⟩
    . intro _
      exact ⟨⟨e, rfl⟩, hmended⟩
    . intro _
      exact ⟨e, rfl, hend⟩
    . intro htoken
      exact absurd (htoken e rfl) hend.not_atToken
    . rintro _ ⟨⟩
      exact .inl hend
    . intro _
      rfl
  . refine ⟨⟨?_, ?_⟩, fun _ => hmore, ?_, ?_, htaken, hcalls⟩
    . rintro ⟨e, he, hend⟩
      exact absurd (hdecided e he) hend.not_atToken
    -- A call that has failed for good fails in the same way before any further tokens.
    . rintro ⟨⟨e, he⟩, more, whole, rest, hwhole⟩
      rw [hmore more, he] at hwhole
      cases hwhole
    . intro e he
      exact .inr (hdecided e he)
    . rintro ⟨e, he, hend⟩
      exact absurd (hdecided e he) hend.not_atToken

end Parser

end ChatLisp
