import ChatLisp.Bracket.Mode
import ChatLisp.Text.Offset

/-!
This module contains the highlighter for a line that is being typed. Strings are green, a right
parenthesis that closes nothing is red, and if the cursor stands behind a right parenthesis, it and
its partner are blue.
-/

namespace ChatLisp.Bracket

inductive Colour where
  | plain
  | string
  | unmatched
  | partner
deriving DecidableEq, Inhabited

def Colour.paint (colour : Colour) (c : Char) : List Char :=
  match colour with
  | plain => [c]
  | string => "\x1b[32m".toList ++ c :: "\x1b[0m".toList
  | unmatched => "\x1b[31m".toList ++ c :: "\x1b[0m".toList
  | partner => "\x1b[1;34m".toList ++ c :: "\x1b[0m".toList

/--
Put `new` in the place of the character at the byte offset `offset`. There has to be one, and it has
to be a single byte.
-/
def replaceByte? (offset : Nat) (new : List Char) : List Char → Option (List Char)
  | [] => none
  | c :: cs =>
    if offset = 0 then
      if c.utf8Size = 1 then some (new ++ cs) else none
    else if c.utf8Size ≤ offset then
      (replaceByte? (offset - c.utf8Size) new cs).map (c :: ·)
    else none

/--
The highlighter between two characters of the line.
-/
structure Painter where
  mode : Mode
  /-- The byte offset in the line. -/
  position : Nat
  /-- The byte offsets in `shown` of the left parentheses that are open, innermost first. -/
  opened : List Nat
  shown : List Char
deriving Inhabited

namespace Painter

def start : Painter :=
  ⟨.code, 0, [], []⟩

/--
Go over the character and show it in the colour.
-/
def put (painter : Painter) (colour : Colour) (c : Char) : Painter :=
  { painter with
    mode := painter.mode.next c
    position := painter.position + c.utf8Size
    shown := painter.shown ++ colour.paint c }

/--
Go over the next character. If it is the right parenthesis before the cursor, its partner has been
shown already and is shown anew.
-/
def next (cursor : Nat) (painter : Painter) (c : Char) : Option Painter :=
  if painter.mode.inString c then
    some (painter.put .string c)
  else if c = '(' then
    some { painter.put .plain c with opened := byteLength painter.shown :: painter.opened }
  else if c = ')' then
    match painter.opened with
    | [] => some (painter.put .unmatched c)
    | opening :: opened =>
      if painter.position + 1 = cursor then
        let painter := painter.put .partner c
        (replaceByte? opening (Colour.partner.paint '(') painter.shown).map
          fun shown => { painter with opened, shown }
      else
        some { painter.put .plain c with opened }
  else
    some (painter.put .plain c)

/--
The highlighter behind the line, if each partner could be replaced.
-/
def run (cursor : Nat) (line : List Char) : Option Painter :=
  line.foldlM (next cursor) start

end Painter

/--
The line for a cursor at the byte offset `cursor`, where zero is before the line.
-/
def highlight (line : List Char) (cursor : Nat) : List Char :=
  ((Painter.run cursor line).map Painter.shown).getD line

end ChatLisp.Bracket
