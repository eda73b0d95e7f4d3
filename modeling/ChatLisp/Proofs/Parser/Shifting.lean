import ChatLisp.Proofs.Parser.Nesting
import ChatLisp.Proofs.Token.Munch

/-!
This module contains the reading of a text that stands behind another one. The parser looks at spans
only to put them into its errors, so a text that stands further on is read as the same expressions,
or is refused with the same error further on.
-/

namespace ChatLisp

theorem Span.merge_shift (offset : Nat) (a b : Span) :
    (a.shift offset).merge (b.shift offset) = (a.merge b).shift offset := by
  simp only [merge, shift, Nat.add_min_add_right, Nat.add_max_add_right]

/--
The error for a text that stands `offset` bytes further on.
-/
def ParseError.shift (offset : Nat) : ParseError → ParseError
  | unexpectedToken found => unexpectedToken (found.shift offset)
  | unexpectedEnd expected => unexpectedEnd expected
  | invalidDot span => invalidDot (span.shift offset)
  | emptyQuote span => emptyQuote (span.shift offset)
  | emptyInput => emptyInput

def SyntaxError.shift (offset : Nat) : SyntaxError → SyntaxError
  | token error => token (error.shift offset)
  | parse error => parse (error.shift offset)

namespace Parser

/--
The construct with all the spans that it remembers further on.
-/
def Pending.shift (offset : Nat) : Pending → Pending
  | list items => list items
  | tail items dot => tail items (dot.shift offset)
  | quotes extra first last => quotes extra (first.shift offset) (last.shift offset)

def State.shift (offset : Nat) : State → State
  | reading pending => reading (pending.map (Pending.shift offset))
  | closing items tail dot pending =>
    closing items tail (dot.shift offset) (pending.map (Pending.shift offset))

def Step.shift (offset : Nat) : Step → Step
  | more state => more (state.shift offset)
  | done expr => done expr
  | fail error => fail (error.shift offset)

def Reading.shift (offset : Nat) (reading : Reading) : Reading :=
  ⟨reading.outcome.mapError (ParseError.shift offset), reading.rest.map (Token.shift offset)⟩

variable (offset : Nat)

theorem complete_shift (e : Expr) (pending : List Pending) :
    complete e (pending.map (Pending.shift offset)) = (complete e pending).shift offset := by
  fun_induction complete e pending with
  | case4 e extra first last pending ih => exact ih
  | _ => rfl

theorem readDot_shift (span : Span) (pending : List Pending) :
    readDot (span.shift offset) (pending.map (Pending.shift offset)) =
      (readDot span pending).shift offset := by
  cases pending with
  | nil => rfl
  | cons innermost pending =>
    cases innermost with
    | list items => cases items <;> rfl
    | tail items dot => simp only [readDot, List.map_cons, Pending.shift, Span.merge_shift]; rfl
    | quotes extra first last => exact complete_shift offset .dot _

theorem readRightParen_shift (span : Span) (pending : List Pending) :
    readRightParen (span.shift offset) (pending.map (Pending.shift offset)) =
      (readRightParen span pending).shift offset := by
  cases pending with
  | nil => rfl
  | cons innermost pending =>
    cases innermost with
    | list items => exact complete_shift offset _ pending
    | tail items dot =>
      simp only [readRightParen, List.map_cons, Pending.shift, Span.merge_shift]
      rfl
    | quotes extra first last => rfl

theorem readQuote_shift (span : Span) (pending : List Pending) :
    readQuote (span.shift offset) (pending.map (Pending.shift offset)) =
      (readQuote span pending).shift offset := by
  cases pending with
  | nil => rfl
  | cons innermost pending => cases innermost <;> rfl

theorem State.step_shift (state : State) (token : Token) :
    (state.shift offset).step (token.shift offset) = (state.step token).shift offset := by
  obtain ⟨kind, span⟩ := token
  cases state with
  | reading pending =>
    cases kind with
    | leftParen => rfl
    | rightParen => exact readRightParen_shift offset span pending
    | dot => exact readDot_shift offset span pending
    | quote => exact readQuote_shift offset span pending
    | invalid text => rfl
    | _ => exact complete_shift offset _ pending
  | closing items tail dot pending =>
    cases kind with
    | rightParen => exact complete_shift offset _ pending
    | _ => exact congrArg (Step.fail ∘ .invalidDot) (Span.merge_shift offset dot span)

theorem State.endError_shift (state : State) :
    (state.shift offset).endError = state.endError.shift offset := by
  cases state with
  | closing items tail dot pending => rfl
  | reading pending =>
    cases pending with
    | nil => rfl
    | cons innermost pending =>
      cases innermost with
      | quotes extra first last => exact congrArg ParseError.emptyQuote (Span.merge_shift ..)
      | _ => rfl

theorem State.run_shift (state : State) (tokens : List Token) :
    (state.shift offset).run (tokens.map (Token.shift offset)) =
      (state.run tokens).shift offset := by
  induction tokens generalizing state with
  | nil =>
    rw [List.map_nil, State.run, State.run, state.endError_shift]
    rfl
  | cons token tokens ih =>
    rw [List.map_cons, State.run_cons, State.run_cons, state.step_shift]
    cases state.step token with
    | more next => exact ih next
    | done e => rfl
    | fail error => rfl

theorem readExpr_shift (tokens : List Token) :
    readExpr (tokens.map (Token.shift offset)) = (readExpr tokens).shift offset :=
  State.run_shift offset (.reading []) tokens

theorem readAll_shift_of_readExpr {tokens rest : List Token} {e : Expr}
    (hread : readExpr tokens = ⟨.ok e, rest⟩)
    (hrest : readAll (rest.map (Token.shift offset)) =
      (readAll rest).mapError (ParseError.shift offset)) :
    readAll (tokens.map (Token.shift offset)) =
      (readAll tokens).mapError (ParseError.shift offset) := by
  have hshifted := readExpr_shift offset tokens
  rw [hread] at hshifted
  rw [readAll_of_readExpr hshifted, readAll_of_readExpr hread, hrest]
  cases readAll rest with
  | error error => rfl
  | ok exprs => rfl

/--
Tokens that stand further on are read as the same expressions, and their errors are further on too.
-/
theorem readAll_shift (tokens : List Token) :
    readAll (tokens.map (Token.shift offset)) =
      (readAll tokens).mapError (ParseError.shift offset) := by
  induction tokens using readAll.induct with
  | case1 =>
    rw [List.map_nil, readAll]
    rfl
  | case2 token tokens reading e he =>
    have hshifted := congrArg Reading.outcome (readExpr_shift offset (token :: tokens))
    rw [Reading.shift, he] at hshifted
    rw [List.map_cons] at hshifted ⊢
    rw [readAll, readAll, hshifted, he]
    rfl
  | case3 token tokens reading e he _ _ ih =>
    exact readAll_shift_of_readExpr offset (by rw [← he]) ih
  | case4 token tokens reading e he _ _ ih =>
    exact readAll_shift_of_readExpr offset (by rw [← he]) ih

end Parser

/--
A text that stands behind another one, with blanks between them, is read as it is on its own. Its
expressions come behind those of the first text. If it is refused, then the joined text is refused
with the same error, and all spans in it are further on by the length of what stands before.
-/
theorem parse_behind {a w : String} {front : List Expr} (ha : parse a = .ok front) (hw : w ≠ "")
    (hblank : ∀ c ∈ w.toList, isBlank c) (b : String) :
    parse (a ++ w ++ b) =
      match parse b with
      | .ok back => .ok (front ++ back)
      | .error e => .error (e.shift (a ++ w).utf8ByteSize) := by
  obtain ⟨tokens, htokens, hfront⟩ := parse_eq_ok_iff.mp ha
  -- What is accepted holds no invalid token, and so no string that could go on behind it.
  have hclosed := not_isOpen_of_nesting (Parser.nesting_of_readAll_ok hfront)
  have hjoin := tokenize_join htokens hclosed hw hblank (b := b)
  rw [byteLength_toList] at hjoin
  unfold parse
  rw [hjoin]
  cases tokenize b with
  | error e => rfl
  | ok more =>
    have hread : Parser.readAll (tokens ++ more.map (Token.shift (a ++ w).utf8ByteSize)) =
        ((Parser.readAll more).mapError (ParseError.shift (a ++ w).utf8ByteSize)).map
          (front ++ ·) := by
      rw [Parser.readAll_append hfront, Parser.readAll_shift]
    simp only [shiftTokens, Except.map, hread]
    cases Parser.readAll more with
    | error e => rfl
    | ok back => rfl

/--
A pair with a parenthesis and a two-byte character in a string, before texts that are refused for
what stands between a dot and a token, at a last quote, at a string without its end, and by the
lexer.
-/
theorem parse_behind_quoted_pair :
    let a := "'(x . \"é(\")"
    let w := "\t\n"
    let front : List Expr := [.quoted (.cons (.symbol "x") (.string "é("))]
    parse a = .ok front ∧ w ≠ "" ∧ (∀ c ∈ w.toList, isBlank c) ∧
      parse (a ++ w ++ "'b 5") = .ok (front ++ [.quoted (.symbol "b"), .integer 5]) ∧
      parse (a ++ w ++ "(1 . 'a b)") = .error (.parse (.invalidDot ⟨17, 23⟩)) ∧
      parse (a ++ w ++ "(a ''") = .error (.parse (.emptyQuote ⟨17, 19⟩)) ∧
      parse (a ++ w ++ "\"b") = .error (.parse (.unexpectedToken ⟨.invalid "\"b", ⟨14, 16⟩⟩)) ∧
      parse (a ++ w ++ "b 9223372036854775808") =
        .error (.token ⟨"9223372036854775808", ⟨16, 35⟩⟩) := by
  intro a w front
  have ha : parse a = .ok front := by cbv
  have hw : w ≠ "" := by decide
  have hblank : ∀ c ∈ w.toList, isBlank c := by simp [w, isBlank]
  have hbehind := parse_behind ha hw hblank
  refine ⟨ha, hw, hblank, ?_, ?_, ?_, ?_, ?_⟩
  . rw [hbehind, show parse "'b 5" = .ok [.quoted (.symbol "b"), .integer 5] by cbv]
  . rw [hbehind, show parse "(1 . 'a b)" = .error (.parse (.invalidDot ⟨3, 9⟩)) by cbv]
    rfl
  . rw [hbehind, show parse "(a ''" = .error (.parse (.emptyQuote ⟨3, 5⟩)) by cbv]
    rfl
  . rw [hbehind, show parse "\"b" =
      .error (.parse (.unexpectedToken ⟨.invalid "\"b", ⟨0, 2⟩⟩)) by cbv]
    rfl
  . rw [hbehind, show parse "b 9223372036854775808" =
      .error (.token ⟨"9223372036854775808", ⟨2, 21⟩⟩) by cbv]
    rfl

end ChatLisp
