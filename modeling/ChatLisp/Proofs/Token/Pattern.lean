import Mathlib
import ChatLisp.Proofs.Token.Lexing

/-!
This module contains the patterns of the tokens as regular languages, next to the tokens that their
words stand for. The main statements say which words the patterns have, in terms of the classes of
characters that the lexer knows and of the pieces of string literals.
-/

open scoped Computability

namespace ChatLisp

/--
The characters between tokens.
-/
def blanks : List Char :=
  [' ', '\t', '\n', '\r', '\x0c']

theorem isBlank_iff {c : Char} : isBlank c ↔ c ∈ blanks := by
  simp [isBlank, blanks, or_assoc]

/--
The words of one character that is in the class.
-/
def charOf (p : Char → Prop) : Language Char :=
  {word | ∃ c, p c ∧ word = [c]}

/--
The character is in one of the ranges, whose ends are part of them.
-/
def InRanges (ranges : List (Char × Char)) (c : Char) : Prop :=
  ∃ range ∈ ranges, range.1 ≤ c ∧ c ≤ range.2

def oneOf (ranges : List (Char × Char)) : Language Char :=
  charOf (InRanges ranges)

def noneOf (chars : List Char) : Language Char :=
  charOf (· ∉ chars)

inductive Pattern where
  | leftParen
  | rightParen
  | dot
  | quote
  | symbol
  | digits
  | string
  /-- A string literal without its end. It may break off behind a backslash. -/
  | openString
deriving DecidableEq

namespace Pattern

/--
What may stand between the quotes of a string literal, again and again: a character that means
itself, or a backslash with any character but a newline behind it.
-/
def stringPart : Language Char :=
  noneOf ['"', '\\'] + {['\\']} * noneOf ['\n']

def language : Pattern → Language Char
  | leftParen => {['(']}
  | rightParen => {[')']}
  | dot => {['.']}
  | quote => {['\'']}
  | symbol =>
    oneOf [('a', 'z'), ('A', 'Z'), ('+', '+'), ('-', '-'), ('*', '*'), ('/', '/')] *
      (oneOf [('a', 'z'), ('A', 'Z'), ('0', '9'), ('+', '+'), ('-', '-'), ('*', '*'),
        ('/', '/')])∗
  | digits => oneOf [('0', '9')] * (oneOf [('0', '9')])∗
  | string => {['"']} * stringPart∗ * {['"']}
  | openString => {['"']} * stringPart∗ * (1 + {['\\']})

end Pattern

/--
A piece of the inside of a string literal.
-/
inductive Piece where
  | plain (c : Char)
  /-- A backslash with a character behind it. -/
  | escape (c : Char)
deriving DecidableEq

namespace Piece

def IsValid : Piece → Prop
  | plain c => c ≠ '"' ∧ c ≠ '\\'
  | escape c => c ≠ '\n'

def chars : Piece → List Char
  | plain c => [c]
  | escape c => ['\\', c]

/--
The text that a piece stands for. An escape that is not known stands for itself.
-/
def payload : Piece → List Char
  | plain c => [c]
  | escape 'n' => ['\n']
  | escape 'r' => ['\r']
  | escape 't' => ['\t']
  | escape '\\' => ['\\']
  | escape '"' => ['"']
  | escape c => ['\\', c]

end Piece

/--
The tokens that a word of a pattern stands for, of which there is one at most.
-/
inductive Pattern.Denotes : Pattern → List Char → TokenKind → Prop where
  | leftParen (word : List Char) : Denotes .leftParen word .leftParen
  | rightParen (word : List Char) : Denotes .rightParen word .rightParen
  | dot (word : List Char) : Denotes .dot word .dot
  | quote (word : List Char) : Denotes .quote word .quote
  | symbol (word : List Char) : Denotes .symbol word (.symbol (String.ofList word))
  | digits (word : List Char) (value : Int64) :
    value.toInt = Nat.ofDigitChars 10 word 0 → Denotes .digits word (.integer value)
  | string (pieces : List Piece) : (∀ piece ∈ pieces, piece.IsValid) →
    Denotes .string ('"' :: (pieces.flatMap Piece.chars ++ ['"']))
      (.string (String.ofList (pieces.flatMap Piece.payload)))
  | openString (word : List Char) : Denotes .openString word (.invalid (String.ofList word))

theorem mem_charOf_kstar {p : Char → Prop} {word : List Char} :
    word ∈ (charOf p)∗ ↔ ∀ c ∈ word, p c := by
  rw [Language.mem_kstar]
  constructor
  . rintro ⟨words, rfl, hwords⟩ c hc
    obtain ⟨one, hone, hmem⟩ := List.mem_flatten.mp hc
    obtain ⟨d, hd, rfl⟩ := hwords one hone
    rw [List.mem_singleton.mp hmem]
    exact hd
  . intro hword
    refine ⟨word.map fun c => [c], ?_, ?_⟩
    . rw [← List.flatMap_def, List.flatMap_singleton']
    . intro one hone
      obtain ⟨c, hc, rfl⟩ := List.mem_map.mp hone
      exact ⟨c, hword c hc, rfl⟩

theorem mem_charOf_mul_kstar {p q : Char → Prop} {word : List Char} :
    word ∈ charOf p * (charOf q)∗ ↔ ∃ c cs, word = c :: cs ∧ p c ∧ ∀ d ∈ cs, q d := by
  rw [Language.mem_mul]
  constructor
  . rintro ⟨_, ⟨c, hc, rfl⟩, cs, hcs, rfl⟩
    exact ⟨c, cs, rfl, hc, mem_charOf_kstar.mp hcs⟩
  . rintro ⟨c, cs, rfl, hc, hcs⟩
    exact ⟨[c], ⟨c, hc, rfl⟩, cs, mem_charOf_kstar.mpr hcs, rfl⟩

theorem isAlpha_iff {c : Char} : c.isAlpha ↔ ('a' ≤ c ∧ c ≤ 'z') ∨ ('A' ≤ c ∧ c ≤ 'Z') := by
  simp only [Char.isAlpha, Char.isUpper, Char.isLower, Bool.or_eq_true, Bool.and_eq_true,
    decide_eq_true_eq, Char.le_def]
  exact Or.comm

theorem isDigit_iff {c : Char} : c.isDigit ↔ '0' ≤ c ∧ c ≤ '9' := by
  simp only [Char.isDigit, Bool.and_eq_true, decide_eq_true_eq, Char.le_def]

theorem le_and_le_iff_eq {c d : Char} : d ≤ c ∧ c ≤ d ↔ c = d :=
  and_comm.trans le_antisymm_iff.symm

theorem inRanges_symbolStart {c : Char} :
    InRanges [('a', 'z'), ('A', 'Z'), ('+', '+'), ('-', '-'), ('*', '*'), ('/', '/')] c ↔
      isSymbolStart c := by
  simp [isSymbolStart, InRanges, isAlpha_iff, le_and_le_iff_eq, or_assoc]

theorem inRanges_symbolPart {c : Char} :
    InRanges [('a', 'z'), ('A', 'Z'), ('0', '9'), ('+', '+'), ('-', '-'), ('*', '*'), ('/', '/')]
      c ↔ isSymbolPart c := by
  simp only [isSymbolPart, isSymbolStart, isAlpha_iff, isDigit_iff, InRanges, le_and_le_iff_eq,
    Bool.or_eq_true, decide_eq_true_eq, List.mem_cons, List.not_mem_nil, or_false, exists_eq_or_imp,
    exists_eq_left]
  tauto

theorem inRanges_digit {c : Char} : InRanges [('0', '9')] c ↔ c.isDigit := by
  simp [InRanges, isDigit_iff]

namespace Pattern

theorem mem_symbol {word : List Char} :
    word ∈ symbol.language ↔
      ∃ c cs, word = c :: cs ∧ isSymbolStart c ∧ ∀ d ∈ cs, isSymbolPart d := by
  simp only [language, oneOf, mem_charOf_mul_kstar, inRanges_symbolStart, inRanges_symbolPart]

theorem mem_digits {word : List Char} :
    word ∈ digits.language ↔ ∃ c cs, word = c :: cs ∧ c.isDigit ∧ ∀ d ∈ cs, d.isDigit := by
  simp only [language, oneOf, mem_charOf_mul_kstar, inRanges_digit]

theorem mem_stringPart {word : List Char} :
    word ∈ stringPart ↔ ∃ piece : Piece, piece.IsValid ∧ word = piece.chars := by
  rw [stringPart, Language.mem_add, Language.mem_mul]
  constructor
  . rintro (⟨c, hc, rfl⟩ | ⟨_, rfl, _, ⟨c, hc, rfl⟩, rfl⟩)
    . exact ⟨.plain c, by simpa [Piece.IsValid] using hc, rfl⟩
    . exact ⟨.escape c, by simpa [Piece.IsValid] using hc, rfl⟩
  . rintro ⟨piece, hpiece, rfl⟩
    cases piece with
    | plain c => exact .inl ⟨c, by simpa [Piece.IsValid] using hpiece, rfl⟩
    | escape c =>
      exact .inr ⟨['\\'], rfl, [c], ⟨c, by simpa [Piece.IsValid] using hpiece, rfl⟩, rfl⟩

theorem mem_stringPart_kstar {word : List Char} :
    word ∈ stringPart∗ ↔
      ∃ pieces : List Piece, (∀ piece ∈ pieces, piece.IsValid) ∧
        word = pieces.flatMap Piece.chars := by
  rw [Language.mem_kstar]
  constructor
  . rintro ⟨words, rfl, hwords⟩
    induction words with
    | nil => exact ⟨[], nofun, rfl⟩
    | cons first words ih =>
      obtain ⟨hfirst, hrest⟩ := List.forall_mem_cons.mp hwords
      obtain ⟨piece, hpiece, rfl⟩ := mem_stringPart.mp hfirst
      obtain ⟨pieces, hpieces, hflatten⟩ := ih hrest
      refine ⟨piece :: pieces, List.forall_mem_cons.mpr ⟨hpiece, hpieces⟩, ?_⟩
      rw [List.flatten_cons, List.flatMap_cons, hflatten]
  . rintro ⟨pieces, hpieces, rfl⟩
    refine ⟨pieces.map Piece.chars, List.flatMap_def .., ?_⟩
    intro word hword
    obtain ⟨piece, hpiece, rfl⟩ := List.mem_map.mp hword
    exact mem_stringPart.mpr ⟨piece, hpieces piece hpiece, rfl⟩

theorem mem_string {word : List Char} :
    word ∈ string.language ↔
      ∃ pieces : List Piece, (∀ piece ∈ pieces, piece.IsValid) ∧
        word = '"' :: (pieces.flatMap Piece.chars ++ ['"']) := by
  simp only [language, Language.mem_mul]
  constructor
  . rintro ⟨_, ⟨_, rfl, inside, hinside, rfl⟩, _, rfl, rfl⟩
    obtain ⟨pieces, hpieces, rfl⟩ := mem_stringPart_kstar.mp hinside
    exact ⟨pieces, hpieces, rfl⟩
  . rintro ⟨pieces, hpieces, rfl⟩
    exact ⟨_, ⟨_, rfl, _, mem_stringPart_kstar.mpr ⟨pieces, hpieces, rfl⟩, rfl⟩, _, rfl, rfl⟩

theorem mem_openString {word : List Char} :
    word ∈ openString.language ↔
      ∃ (pieces : List Piece) (last : List Char), (∀ piece ∈ pieces, piece.IsValid) ∧
        (last = [] ∨ last = ['\\']) ∧ word = '"' :: (pieces.flatMap Piece.chars ++ last) := by
  simp only [language, Language.mem_mul, Language.mem_add, Language.mem_one]
  constructor
  . rintro ⟨_, ⟨_, rfl, inside, hinside, rfl⟩, last, hlast, rfl⟩
    obtain ⟨pieces, hpieces, rfl⟩ := mem_stringPart_kstar.mp hinside
    exact ⟨pieces, last, hpieces, hlast, rfl⟩
  . rintro ⟨pieces, last, hpieces, hlast, rfl⟩
    exact ⟨_, ⟨_, rfl, _, mem_stringPart_kstar.mpr ⟨pieces, hpieces, rfl⟩, rfl⟩, last, hlast, rfl⟩

end Pattern

end ChatLisp
