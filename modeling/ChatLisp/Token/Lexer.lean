import ChatLisp.Text.Offset
import ChatLisp.Token.Lexeme

/-!
This module contains the lexer, which cuts a text into tokens. The only text it refuses is one with
an integer literal out of range: whatever fits no pattern becomes an invalid token, which is left
for the parser to refuse.
-/

namespace ChatLisp

/--
An integer literal that exceeds the largest integer, as it was typed.
-/
structure IntegerOverflow where
  digits : String
  span : Span
deriving DecidableEq, Inhabited

def IntegerOverflow.message (e : IntegerOverflow) : String :=
  "integer literal out of range: '" ++ e.digits ++ "'"

/--
Cut a text into tokens. The first integer literal that is out of range ends the work.
-/
def tokenize (text : String) : Except IntegerOverflow (List Token) :=
  go 0 text.toList
where
  /--
  Cut the text `cs`, whose first character stands at the byte offset `start`.
  -/
  go (start : Nat) (cs : List Char) : Except IntegerOverflow (List Token) :=
    match cs with
    | [] => .ok []
    | c :: rest =>
      if isBlank c then
        go (start + c.utf8Size) rest
      else
        let cut := Lexeme.first c rest
        let span : Span := ⟨start, start + byteLength cut.1.chars⟩
        match cut.1.kind? with
        | none => .error ⟨String.ofList cut.1.chars, span⟩
        | some kind =>
          match go span.stop cut.2 with
          | .error e => .error e
          | .ok tokens => .ok (⟨kind, span⟩ :: tokens)
  termination_by cs.length
  decreasing_by
    . simp
    . exact Lexeme.length_first_lt c rest

end ChatLisp
