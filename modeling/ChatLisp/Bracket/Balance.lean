import ChatLisp.Bracket.Mode

/-!
This module contains the check that tells whether a line can be handed over to the parser: all
brackets and strings are closed, some are still open, or a bracket closes what was not opened.
-/

namespace ChatLisp.Bracket

inductive Balance where
  | complete
  | incomplete
  /-- The byte offset of the first right parenthesis that closes nothing. -/
  | unmatched (position : Nat)
deriving DecidableEq, Inhabited

def balance (text : List Char) : Balance :=
  go .code 0 0 text
where
  /--
  Check what follows the byte offset `position`, where `depth` parentheses are open.
  -/
  go (mode : Mode) (depth position : Nat) : List Char → Balance
    | [] => if mode = .code ∧ depth = 0 then .complete else .incomplete
    | c :: rest =>
      if mode = .code ∧ c = '(' then
        go .code (depth + 1) (position + c.utf8Size) rest
      else if mode = .code ∧ c = ')' then
        match depth with
        | 0 => .unmatched position
        | depth + 1 => go .code depth (position + c.utf8Size) rest
      else
        go (mode.next c) depth (position + c.utf8Size) rest

end ChatLisp.Bracket
