/-!
This module contains the reading of a line by its brackets alone: which characters stand inside a
string, where brackets do not count. It serves lines that are still being typed, so it knows nothing
of tokens.
-/

namespace ChatLisp.Bracket

inductive Mode where
  | code
  | string
  /-- In a string, behind a backslash. -/
  | escaped
deriving DecidableEq, Inhabited

def Mode.next (mode : Mode) (c : Char) : Mode :=
  match mode with
  | code => if c = '"' then string else code
  | string => if c = '\\' then escaped else if c = '"' then code else string
  | escaped => string

/--
Whether a character belongs to a string, its quotes included, if `mode` is reached before it.
-/
def Mode.inString (mode : Mode) (c : Char) : Bool :=
  mode ≠ code || c = '"'

end ChatLisp.Bracket
