import ChatLisp.Proofs.Parser.Progress
import ChatLisp.Proofs.Token.Joining

/-!
This module contains the nesting of lists in the tokens that the parser takes. What a phrase spells
closes all lists that it opens, and when the tokens stop too early, the lists that are still open
are those that the parser has not finished.
-/

namespace ChatLisp

/--
The number of lists that are open behind the tokens, if `depth` lists are open before them. There is
none if a parenthesis closes no list, or if a token is invalid.
-/
def nesting (depth : Nat) : List TokenKind → Option Nat
  | [] => some depth
  | .leftParen :: kinds => nesting (depth + 1) kinds
  | .rightParen :: kinds =>
    match depth with
    | 0 => none
    | depth + 1 => nesting depth kinds
  | .invalid _ :: _ => none
  | _ :: kinds => nesting depth kinds

theorem not_isOpen_of_nesting {tokens : List Token} {depth unclosed : Nat}
    (h : nesting depth (tokens.map Token.kind) = some unclosed) :
    ∀ token ∈ tokens, ¬ token.kind.isOpen := by
  induction tokens generalizing depth with
  | nil => simp
  | cons token tokens ih =>
    obtain ⟨kind, span⟩ := token
    rw [List.forall_mem_cons]
    cases kind with
    | invalid text => cases h
    | rightParen =>
      cases depth with
      | zero => cases h
      | succ depth => exact ⟨nofun, ih h⟩
    | leftParen => exact ⟨nofun, ih h⟩
    | _ => exact ⟨nofun, ih h⟩

namespace Grammar

mutual

theorem Elem.nesting_append (elem : Elem) (depth : Nat) (kinds : List TokenKind) :
    nesting depth (elem.kinds ++ kinds) = nesting depth kinds := by
  match elem with
  | .symbol name => rfl
  | .integer value => rfl
  | .string payload => rfl
  | .list elems =>
    rw [Elem.kinds, List.cons_append, List.append_assoc, nesting, Elems.nesting_append elems]
    rfl
  | .dotted first more tail =>
    simp only [Elem.kinds, List.cons_append, List.append_assoc]
    rw [nesting, Elem.nesting_append first, Elems.nesting_append more, nesting,
      Elem.nesting_append tail]
    . rfl
    all_goals nofun
  | .quoted phrase => exact Phrase.nesting_append phrase depth kinds

theorem Elems.nesting_append (elems : Elems) (depth : Nat) (kinds : List TokenKind) :
    nesting depth (elems.kinds ++ kinds) = nesting depth kinds := by
  match elems with
  | .nil => rfl
  | .cons first more =>
    rw [Elems.kinds, List.append_assoc, Elem.nesting_append first, Elems.nesting_append more]

theorem Phrase.nesting_append (phrase : Phrase) (depth : Nat) (kinds : List TokenKind) :
    nesting depth (phrase.kinds ++ kinds) = nesting depth kinds := by
  match phrase with
  | .dot => rfl
  | .elem elem => exact Elem.nesting_append elem depth kinds

end

theorem Spells.nesting_eq {phrases : List Phrase} {tokens : List Token} (h : Spells phrases tokens)
    (depth : Nat) :
    nesting depth (tokens.map Token.kind) = some depth := by
  rw [h]
  clear h
  induction phrases with
  | nil => rfl
  | cons phrase phrases ih => rw [List.flatMap_cons, phrase.nesting_append, ih]

end Grammar

open Grammar

namespace Parser

def openLists : List Pending → Nat
  | [] => 0
  | .list _ :: pending => openLists pending + 1
  | .tail _ _ :: pending => openLists pending + 1
  | .quotes _ _ _ :: pending => openLists pending

def State.openLists : State → Nat
  | reading pending => Parser.openLists pending
  | closing _ _ _ pending => Parser.openLists pending + 1

theorem nesting_replicate_quote (count depth : Nat) (kinds : List TokenKind) :
    nesting depth (List.replicate count .quote ++ kinds) = nesting depth kinds := by
  induction count with
  | zero => rfl
  | succ count ih => exact ih

theorem OpenAfter.nesting_append {kinds : List TokenKind} {pending : List Pending}
    (h : OpenAfter kinds pending) (depth : Nat) (more : List TokenKind) :
    nesting depth (kinds ++ more) = nesting (depth + openLists pending) more := by
  induction h generalizing more with
  | nil => rfl
  | list elems _ ih =>
    rw [List.append_assoc, ih, List.cons_append, nesting, elems.nesting_append]
    rfl
  | tail first more' dot _ ih =>
    simp only [List.append_assoc, List.cons_append, ih]
    rw [nesting, first.nesting_append, more'.nesting_append]
    rfl
  | quotes extra first last _ ih =>
    rw [List.append_assoc, ih, nesting_replicate_quote]
    rfl

theorem State.After.nesting_eq {kinds : List TokenKind} {state : State} (h : state.After kinds)
    (depth : Nat) :
    nesting depth kinds = some (depth + state.openLists) := by
  cases h with
  | reading h =>
    have hkinds := h.nesting_append depth []
    rw [List.append_nil] at hkinds
    exact hkinds
  | closing first more tail dot h =>
    rw [h.nesting_append, nesting, first.nesting_append, more.nesting_append, nesting,
      ← List.append_nil tail.kinds, tail.nesting_append]
    . rfl
    all_goals nofun

theorem State.After.run_atEnd {kinds : List TokenKind} {state : State} (h : state.After kinds)
    {tokens rest : List Token} {e : ParseError} (hrun : state.run tokens = ⟨.error e, rest⟩)
    (he : e.AtEnd) :
    ∃ reached : State, reached.After (kinds ++ tokens.map Token.kind) ∧ e = reached.endError := by
  induction tokens generalizing kinds state with
  | nil =>
    cases hrun
    exact ⟨state, by simpa using h, rfl⟩
  | cons token tokens ih =>
    have hstep := h.step token
    rw [State.run_cons] at hrun
    cases hs : state.step token with
    | more next =>
      rw [hs] at hstep hrun
      obtain ⟨reached, hreached, hend⟩ := ih hstep hrun
      exact ⟨reached, by simpa using hreached, hend⟩
    | done expr =>
      rw [hs] at hrun
      cases hrun
    | fail error =>
      rw [hs] at hrun
      cases hrun
      exact absurd (State.atToken_of_step hs) he.not_atToken

theorem State.openLists_pos {kinds : List TokenKind} {state : State} (h : state.After kinds)
    (hkinds : kinds ≠ []) {expected : Expectation}
    (hend : state.endError = .unexpectedEnd expected) :
    0 < state.openLists := by
  cases h with
  | reading h =>
    cases h with
    | nil => exact absurd rfl hkinds
    | list => exact Nat.succ_pos _
    | tail => exact Nat.succ_pos _
    | quotes => cases hend
  | closing => exact Nat.succ_pos _

theorem nesting_of_readAll_ok {tokens : List Token} {exprs : List Expr}
    (h : readAll tokens = .ok exprs) :
    nesting 0 (tokens.map Token.kind) = some 0 := by
  obtain ⟨phrases, hspells, _⟩ := (readAll_eq_ok_iff _ _).mp h
  exact hspells.nesting_eq 0

theorem nesting_of_readAll_unexpectedEnd {tokens : List Token} {expected : Expectation}
    (h : readAll tokens = .error (.unexpectedEnd expected)) :
    ∃ depth, nesting 0 (tokens.map Token.kind) = some (depth + 1) := by
  fun_induction readAll tokens with
  | case1 => cases h
  | case2 token tokens reading e he =>
    cases h
    have hrun : (State.reading []).run (token :: tokens) =
        ⟨.error (.unexpectedEnd expected), reading.rest⟩ := by
      rw [← he]
      rfl
    obtain ⟨reached, hreached, hend⟩ :=
      (State.After.reading .nil).run_atEnd hrun (.inl ⟨expected, rfl⟩)
    have hpos := State.openLists_pos hreached (by simp) hend.symm
    refine ⟨reached.openLists - 1, ?_⟩
    rw [List.nil_append] at hreached
    rw [hreached.nesting_eq 0]
    congr 1
    omega
  | case3 token tokens reading e he error hrest ih =>
    cases h
    obtain ⟨depth, hdepth⟩ := ih hrest
    have hread : readExpr (token :: tokens) = ⟨.ok e, reading.rest⟩ := by
      rw [← he]
    obtain ⟨phrase, front, htokens, hkinds, _⟩ := (readExpr_eq_ok_iff _ _ _).mp hread
    exact ⟨depth, by rw [htokens, List.map_append, hkinds, phrase.nesting_append, hdepth]⟩
  | case4 => cases h

end Parser

end ChatLisp
