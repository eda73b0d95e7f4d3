import ChatLisp.Integer
import ChatLisp.Text.Escape
import ChatLisp.Token.Basic

/-!
This module contains the lexemes: the pieces of text that tokens are made from. `Lexeme.first`
takes the longest piece off the front of a text, `Lexeme.kind?` says which token a piece is.

The main statement, `Lexeme.chars_first_append`, is that the piece and the rest are the whole text.
-/

namespace ChatLisp

/--
The characters that separate tokens and belong to none.
-/
def isBlank (c : Char) : Bool :=
  c = ' ' || c = '\t' || c = '\n' || c = '\r' || c = '\x0c'

/--
The characters a symbol starts with. Operator characters are among them, so `-` and `-5` are both
symbols.
-/
def isSymbolStart (c : Char) : Bool :=
  c.isAlpha || c = '+' || c = '-' || c = '*' || c = '/'

def isSymbolPart (c : Char) : Bool :=
  isSymbolStart c || c.isDigit

inductive Lexeme where
  | leftParen
  | rightParen
  | dot
  | quote
  | symbol (name : List Char)
  | digits (run : List Char)
  | string (inside : List Char)
  | invalid (text : List Char)
deriving DecidableEq

namespace Lexeme

def chars : Lexeme → List Char
  | leftParen => ['(']
  | rightParen => [')']
  | dot => ['.']
  | quote => ['\'']
  | symbol name => name
  | digits run => run
  | string inside => '"' :: (inside ++ ['"'])
  | invalid text => text

/--
The token kind of a lexeme. A run of digits has none if its value is out of range.
-/
def kind? : Lexeme → Option TokenKind
  | leftParen => some .leftParen
  | rightParen => some .rightParen
  | dot => some .dot
  | quote => some .quote
  | symbol name => some (.symbol (String.ofList name))
  | digits run => (integerOfInt? (Nat.ofDigitChars 10 run 0)).map .integer
  | string inside => some (.string (String.ofList (Escape.unescape inside)))
  | invalid text => some (.invalid (String.ofList text))

/--
The result of reading a string literal behind its opening quote: the text read, the rest, and
whether the closing quote was found between them.
-/
structure StringScan where
  inside : List Char
  rest : List Char
  closed : Bool

/--
The result for a text with one more character in front, which is inside the literal.
-/
def StringScan.cons (c : Char) (scan : StringScan) : StringScan :=
  { scan with inside := c :: scan.inside }

def StringScan.text (scan : StringScan) : List Char :=
  scan.inside ++ cond scan.closed ('"' :: scan.rest) scan.rest

@[simp]
theorem StringScan.text_cons (c : Char) (scan : StringScan) :
    (scan.cons c).text = c :: scan.text :=
  rfl

/--
Read a string literal up to its closing quote; `escaped` says whether a backslash stands before the
text. There is no escape of a newline: a literal breaks off between a backslash and a newline.
-/
def scanString (escaped : Bool) : List Char → StringScan
  | [] => ⟨[], [], false⟩
  | c :: rest =>
    if escaped then
      if c = '\n' then ⟨[], c :: rest, false⟩ else (scanString false rest).cons c
    else if c = '"' then ⟨[], rest, true⟩
    else (scanString (c = '\\') rest).cons c

@[simp]
theorem text_scanString (escaped : Bool) (text : List Char) :
    (scanString escaped text).text = text := by
  fun_induction scanString escaped text with
  | case1 => rfl
  | case2 => rfl
  | case3 c rest _ ih => simp [ih]
  | case4 => rfl
  | case5 escaped c rest _ _ ih => simp [ih]

/--
The longest lexeme at the front of the text `c :: rest`, and what is left behind it. A character
that starts no lexeme is an invalid one of its own.
-/
def first (c : Char) (rest : List Char) : Lexeme × List Char :=
  if c = '(' then (leftParen, rest)
  else if c = ')' then (rightParen, rest)
  else if c = '.' then (dot, rest)
  else if c = '\'' then (quote, rest)
  else if isSymbolStart c then
    (symbol (c :: rest.takeWhile isSymbolPart), rest.dropWhile isSymbolPart)
  else if c.isDigit then
    (digits (c :: rest.takeWhile Char.isDigit), rest.dropWhile Char.isDigit)
  else if c = '"' then
    let scan := scanString false rest
    (if scan.closed then string scan.inside else invalid ('"' :: scan.inside), scan.rest)
  else (invalid [c], rest)

@[simp]
theorem chars_first_append (c : Char) (rest : List Char) :
    (first c rest).1.chars ++ (first c rest).2 = c :: rest := by
  fun_cases first c rest with
  | case7 _ _ _ _ _ _ hquote scan =>
    have hscan : scan.text = rest := text_scanString false rest
    by_cases hclosed : scan.closed <;> simp_all [chars, StringScan.text]
  | _ => simp_all [chars]

theorem chars_first_ne_nil (c : Char) (rest : List Char) : (first c rest).1.chars ≠ [] := by
  fun_cases first c rest with
  | case7 _ _ _ _ _ _ hquote scan => by_cases hclosed : scan.closed <;> simp [chars, hclosed]
  | _ => simp [chars]

theorem length_first_lt (c : Char) (rest : List Char) :
    (first c rest).2.length < (c :: rest).length := by
  have happend := congrArg List.length (chars_first_append c rest)
  have hpos := List.length_pos_iff.mpr (chars_first_ne_nil c rest)
  simp only [List.length_append] at happend
  omega

end Lexeme

end ChatLisp
