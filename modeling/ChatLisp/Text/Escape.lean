/-!
This module contains the escapes of string literals: `unescape` reads the inside of a literal,
`escape` writes a payload as the inside of one.

An escape that is not known stands for itself, backslash included, and a backslash of the payload
is written bare wherever reading it back gives a backslash again, so `\a` prints the way it was
typed. The main statement is that reading gives back what was written.
-/

namespace ChatLisp.Escape

/--
The character that a backslash followed by `c` stands for.
-/
def meaning? (c : Char) : Option Char :=
  if c = 'n' then some '\n'
  else if c = 'r' then some '\r'
  else if c = 't' then some '\t'
  else if c = '\\' then some '\\'
  else if c = '"' then some '"'
  else none

/--
The character that stands behind a backslash in the written form of `c`, if `c` is always written
that way.
-/
def letter? (c : Char) : Option Char :=
  if c = '\n' then some 'n'
  else if c = '\r' then some 'r'
  else if c = '\t' then some 't'
  else if c = '"' then some '"'
  else none

/--
Whether a bare backslash may stand before the written form of `rest`: there is a next character,
and what is written for it begins neither with a backslash nor with a letter that would turn the
backslash into an escape.
-/
def bareBefore : List Char → Bool
  | [] => false
  | c :: _ => (meaning? c).isNone && (letter? c).isNone

/--
The payload that the inside of a literal stands for.
-/
def unescape : List Char → List Char
  | [] => []
  | [c] => [c]
  | c :: d :: rest =>
    if c = '\\' then
      match meaning? d with
      | some x => x :: unescape rest
      | none => c :: d :: unescape rest
    else
      c :: unescape (d :: rest)

/--
The inside of the literal that a payload prints as.
-/
def escape : List Char → List Char
  | [] => []
  | c :: rest =>
    if c = '\\' then
      if bareBefore rest then c :: escape rest else c :: c :: escape rest
    else
      match letter? c with
      | some l => '\\' :: l :: escape rest
      | none => c :: escape rest

theorem meaning?_letter? {c l : Char} (h : letter? c = some l) : meaning? l = some c := by
  grind [letter?, meaning?]

theorem exists_eq_cons_of_bareBefore {payload : List Char} (h : bareBefore payload) :
    ∃ c rest, payload = c :: rest ∧ meaning? c = none ∧ letter? c = none ∧
      escape payload = c :: escape rest := by
  cases payload with
  | nil => simp [bareBefore] at h
  | cons c rest =>
    simp only [bareBefore, Bool.and_eq_true, Option.isNone_iff_eq_none] at h
    obtain ⟨hmeaning, hletter⟩ := h
    have hc : c ≠ '\\' := by
      rintro rfl
      simp [meaning?] at hmeaning
    refine ⟨c, rest, rfl, hmeaning, hletter, ?_⟩
    simp [escape, hc, hletter]

@[simp]
theorem unescape_escape (payload : List Char) : unescape (escape payload) = payload := by
  fun_induction escape payload with
  | case1 => rfl
  | case2 rest hbare ih =>
    obtain ⟨d, rest, rfl, hmeaning, -, hwritten⟩ := exists_eq_cons_of_bareBefore hbare
    rw [hwritten] at ih ⊢
    have hrest : unescape (escape rest) = rest := by
      cases hr : escape rest with
      | nil => simp_all [unescape]
      | cons e es =>
        have hd : d ≠ '\\' := by
          rintro rfl
          simp [meaning?] at hmeaning
        simp_all [unescape]
    simp [unescape, hmeaning, hrest]
  | case3 rest hbare ih => simp [unescape, meaning?, ih]
  | case4 c rest hc l hl ih => simp [unescape, meaning?_letter? hl, ih]
  | case5 c rest hc hl ih =>
    cases hr : escape rest with
    | nil => simp_all [unescape]
    | cons e es => simp_all [unescape]

end ChatLisp.Escape
