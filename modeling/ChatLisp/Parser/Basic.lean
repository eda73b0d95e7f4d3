import ChatLisp.Parser.State

/-!
This module contains the parser, which reads tokens as expressions. `Parser.readExpr` reads the
first expression, or the part of it that shows that there is none, `Parser.readAll` reads a whole
program.
-/

namespace ChatLisp

namespace Parser

/--
The outcome of reading one expression, and the tokens that were not looked at.
-/
structure Reading where
  outcome : Except ParseError Expr
  rest : List Token

def State.run (state : State) : List Token → Reading
  | [] => ⟨.error state.endError, []⟩
  | token :: tokens =>
    match state.step token with
    | .more state => state.run tokens
    | .done expr => ⟨.ok expr, tokens⟩
    | .fail error => ⟨.error error, tokens⟩

def readExpr (tokens : List Token) : Reading :=
  (State.reading []).run tokens

theorem State.length_rest_run_le (state : State) (tokens : List Token) :
    (state.run tokens).rest.length ≤ tokens.length := by
  induction tokens generalizing state with
  | nil => simp [run]
  | cons token tokens ih =>
    simp only [run]
    split
    . exact Nat.le_succ_of_le (ih _)
    . simp
    . simp

theorem length_rest_readExpr_lt (token : Token) (tokens : List Token) :
    (readExpr (token :: tokens)).rest.length < (token :: tokens).length := by
  simp only [readExpr, State.run]
  split
  . exact Nat.lt_succ_of_le (State.length_rest_run_le _ _)
  . simp
  . simp

/--
Read all expressions up to the end of the tokens. The first error ends the work.
-/
def readAll : List Token → Except ParseError (List Expr)
  | [] => .ok []
  | token :: tokens =>
    let reading := readExpr (token :: tokens)
    match reading.outcome with
    | .error e => .error e
    | .ok expr =>
      match readAll reading.rest with
      | .error e => .error e
      | .ok exprs => .ok (expr :: exprs)
termination_by tokens => tokens.length
decreasing_by exact length_rest_readExpr_lt token tokens

/--
The outcomes of reading one expression after the other, through errors too, up to and including
the attempt that finds no token.
-/
def attempts : List Token → List (Except ParseError Expr)
  | [] => [(readExpr []).outcome]
  | token :: tokens =>
    let reading := readExpr (token :: tokens)
    reading.outcome :: attempts reading.rest
termination_by tokens => tokens.length
decreasing_by exact length_rest_readExpr_lt token tokens

end Parser

def parse (text : String) : Except SyntaxError (List Expr) :=
  match tokenize text with
  | .error e => .error (.token e)
  | .ok tokens =>
    match Parser.readAll tokens with
    | .error e => .error (.parse e)
    | .ok exprs => .ok exprs

theorem parse_eq_ok_iff {text : String} {exprs : List Expr} :
    parse text = .ok exprs ↔
      ∃ tokens, tokenize text = .ok tokens ∧ Parser.readAll tokens = .ok exprs := by
  unfold parse
  constructor
  . intro h
    split at h
    . cases h
    . next tokens htokens =>
      split at h
      . cases h
      . next exprs' hexprs =>
        cases h
        exact ⟨tokens, htokens, hexprs⟩
  . rintro ⟨tokens, htokens, hexprs⟩
    rw [htokens]
    simp only [hexprs]

theorem parse_eq_token_error_iff {text : String} {e : IntegerOverflow} :
    parse text = .error (.token e) ↔ tokenize text = .error e := by
  unfold parse
  constructor
  . intro h
    split at h
    . next herror =>
      cases h
      exact herror
    . split at h
      . cases h
      . cases h
  . intro herror
    rw [herror]

theorem parse_eq_parse_error_iff {text : String} {e : ParseError} :
    parse text = .error (.parse e) ↔
      ∃ tokens, tokenize text = .ok tokens ∧ Parser.readAll tokens = .error e := by
  unfold parse
  constructor
  . intro h
    split at h
    . cases h
    . next tokens htokens =>
      split at h
      . next error herror =>
        cases h
        exact ⟨tokens, htokens, herror⟩
      . cases h
  . rintro ⟨tokens, htokens, herror⟩
    rw [htokens]
    simp only [herror]

end ChatLisp
