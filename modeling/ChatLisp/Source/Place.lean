import ChatLisp.Text.Lines

/-!
This module contains places: lines and columns of a text. A line goes up to and including its end,
so a text that ends with a line end has no further, empty line.
-/

namespace ChatLisp

/--
A line and a column, both counted from one.
-/
structure Place where
  line : Nat
  column : Nat
deriving DecidableEq, Inhabited

namespace Place

def text (place : Place) : String :=
  toString place.line ++ ":" ++ toString place.column

def isLineBreak (c : Char) : Bool :=
  -- The line breaks of Unicode.
  c == '\n' || c == '\r' || c == '\x0b' || c == '\x0c' || c == '\u0085' || c == '\u2028'
    || c == '\u2029'

/--
Whether the line of `c` ends behind it, if `rest` is what follows. A carriage return goes with the
newline behind it.
-/
def endsLine (c : Char) (rest : List Char) : Bool :=
  isLineBreak c && !(c == '\r' && rest.head? == some '\n')

def lines (text : List Char) : List (List Char) :=
  splitAfter endsLine text

/--
The place of an offset in a text with the given lines, counted in characters. An offset behind the
end counts on in the last line.
-/
def locate (lines : List (List Char)) (offset : Nat) : Place :=
  go 1 lines offset
where
  /--
  The place of an offset from the start of the line with the given number.
  -/
  go (number : Nat) (lines : List (List Char)) (offset : Nat) : Place :=
    match lines with
    | line :: next :: lines =>
      if offset < line.length then ⟨number, offset + 1⟩
      else go (number + 1) (next :: lines) (offset - line.length)
    | _ => ⟨number, offset + 1⟩

def ofOffset (text : List Char) (offset : Nat) : Place :=
  locate (lines text) offset

end Place

end ChatLisp
