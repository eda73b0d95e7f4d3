import Mathlib
import ChatLisp.Token.Lexer

/-!
This module contains the lexing of texts that are put together from lexemes. What a lexeme is does
not depend on the text behind it, as long as no symbol and no integer goes on into that text.
-/

namespace ChatLisp

/--
The names that are symbols when they are read.
-/
def isSymbolName : List Char → Bool
  | [] => false
  | c :: cs => isSymbolStart c && cs.all isSymbolPart

/--
No symbol and no integer goes on into the text.
-/
def Breaks (cs : List Char) : Prop :=
  ∀ c ∈ cs.head?, isSymbolPart c = false

theorem breaks_nil : Breaks [] := by
  simp [Breaks]

theorem breaks_blank (cs : List Char) : Breaks (' ' :: cs) := by
  simp [Breaks, isSymbolPart, isSymbolStart]

theorem breaks_rightParen (cs : List Char) : Breaks (')' :: cs) := by
  simp [Breaks, isSymbolPart, isSymbolStart]

theorem isSymbolPart_of_isDigit {c : Char} (h : c.isDigit) : isSymbolPart c := by
  simp [isSymbolPart, h]

theorem isSymbolPart_of_mem_name {name : List Char} (h : isSymbolName name) :
    ∀ c ∈ name, isSymbolPart c := by
  cases name with
  | nil => exact List.forall_mem_nil _
  | cons c cs =>
    rw [isSymbolName, Bool.and_eq_true, List.all_eq_true] at h
    refine List.forall_mem_cons.mpr ⟨?_, h.2⟩
    rw [isSymbolPart, h.1, Bool.true_or]

theorem isSymbolName_of_neg {n : Int} (h : n < 0) : isSymbolName (toString n).toList := by
  obtain ⟨m, rfl⟩ := Int.eq_negSucc_of_lt_zero h
  have hchars : (toString (Int.negSucc m)).toList = '-' :: Nat.toDigits 10 (m + 1) := by
    change ("-" ++ (m + 1).repr).toList = _
    rw [String.toList_append, Nat.toList_repr]
    rfl
  rw [hchars, isSymbolName, Bool.and_eq_true, List.all_eq_true]
  refine ⟨by decide, ?_⟩
  intro d hd
  exact isSymbolPart_of_isDigit (Nat.isDigit_of_mem_toDigits (by decide) (by decide) hd)

theorem not_isSymbolStart_of_isDigit {c : Char} (h : c.isDigit) : ¬ isSymbolStart c := by
  intro hstart
  simp only [isSymbolStart, Bool.or_eq_true, decide_eq_true_eq] at hstart
  obtain (((halpha | rfl) | rfl) | rfl) | rfl := hstart
  . simp only [Char.isAlpha, Char.isUpper, Char.isLower, Char.isDigit, Bool.or_eq_true,
      Bool.and_eq_true, decide_eq_true_eq, ge_iff_le, UInt32.le_iff_toNat_le] at h halpha
    simp at h halpha
    omega
  all_goals revert h; decide

theorem isBlank_eq_false_of_isSymbolPart {c : Char} (h : isSymbolPart c) : isBlank c = false := by
  simp only [isBlank, Bool.or_eq_false_iff, decide_eq_false_iff_not]
  refine ⟨⟨⟨⟨?_, ?_⟩, ?_⟩, ?_⟩, ?_⟩
  all_goals
    rintro rfl
    revert h
    decide

namespace Breaks

variable {p : Char → Bool} {cs : List Char}

theorem takeWhile_eq_nil (h : Breaks cs) (hp : ∀ c, p c → isSymbolPart c) :
    cs.takeWhile p = [] := by
  cases cs with
  | nil => rfl
  | cons c cs =>
    have hc := h c rfl
    have hpc : ¬ p c := by
      intro hpc
      simp [hp c hpc] at hc
    rw [List.takeWhile_cons_of_neg hpc]

theorem dropWhile_eq_self (h : Breaks cs) (hp : ∀ c, p c → isSymbolPart c) :
    cs.dropWhile p = cs := by
  have happend := List.takeWhile_append_dropWhile (p := p) (l := cs)
  rw [h.takeWhile_eq_nil hp] at happend
  exact happend

end Breaks

namespace Lexeme

theorem first_symbol {c : Char} {cs rest : List Char} (hname : isSymbolName (c :: cs))
    (hrest : Breaks rest) :
    first c (cs ++ rest) = (symbol (c :: cs), rest) := by
  simp only [isSymbolName, Bool.and_eq_true, List.all_eq_true] at hname
  obtain ⟨hc, hcs⟩ := hname
  have htake : (cs ++ rest).takeWhile isSymbolPart = cs := by
    rw [List.takeWhile_append_of_pos hcs, hrest.takeWhile_eq_nil fun _ => id, List.append_nil]
  have hdrop : (cs ++ rest).dropWhile isSymbolPart = rest := by
    rw [List.dropWhile_append_of_pos hcs, hrest.dropWhile_eq_self fun _ => id]
  have hne : ∀ d, isSymbolStart d = false → c ≠ d := by
    rintro d hd rfl
    simp [hd] at hc
  rw [first, if_neg (hne '(' rfl), if_neg (hne ')' rfl), if_neg (hne '.' rfl),
    if_neg (hne '\'' rfl), if_pos hc, htake, hdrop]

theorem first_of_isDigit {c : Char} (hc : c.isDigit) (rest : List Char) :
    first c rest = (digits (c :: rest.takeWhile Char.isDigit), rest.dropWhile Char.isDigit) := by
  have hne : ∀ d, d.isDigit = false → c ≠ d := by
    rintro d hd rfl
    simp [hd] at hc
  rw [first, if_neg (hne '(' rfl), if_neg (hne ')' rfl), if_neg (hne '.' rfl),
    if_neg (hne '\'' rfl), if_neg (not_isSymbolStart_of_isDigit hc), if_pos hc]

theorem first_digits {c : Char} {cs rest : List Char} (hdigits : ∀ d ∈ c :: cs, d.isDigit)
    (hrest : Breaks rest) :
    first c (cs ++ rest) = (digits (c :: cs), rest) := by
  simp only [List.mem_cons, forall_eq_or_imp] at hdigits
  obtain ⟨hc, hcs⟩ := hdigits
  have htake : (cs ++ rest).takeWhile Char.isDigit = cs := by
    rw [List.takeWhile_append_of_pos hcs,
      hrest.takeWhile_eq_nil fun _ => isSymbolPart_of_isDigit, List.append_nil]
  have hdrop : (cs ++ rest).dropWhile Char.isDigit = rest := by
    rw [List.dropWhile_append_of_pos hcs, hrest.dropWhile_eq_self fun _ => isSymbolPart_of_isDigit]
  rw [first_of_isDigit hc, htake, hdrop]

theorem scanString_escaped_of_plain {c : Char} (rest : List Char) (hn : c ≠ '\n')
    (hquote : c ≠ '"') (hslash : c ≠ '\\') :
    scanString true (c :: rest) = scanString false (c :: rest) := by
  simp [scanString, hn, hquote, hslash]

theorem scanString_backslash (rest : List Char) :
    scanString false ('\\' :: rest) = (scanString true rest).cons '\\' := by
  simp [scanString]

theorem scanString_escape (payload rest : List Char) :
    scanString false (Escape.escape payload ++ '"' :: rest) =
      ⟨Escape.escape payload, rest, true⟩ := by
  fun_induction Escape.escape payload with
  | case1 => rfl
  | case2 payload hbare ih =>
    obtain ⟨c, payload, rfl, hmeaning, hletter, hwritten⟩ :=
      Escape.exists_eq_cons_of_bareBefore hbare
    -- Neither a newline nor a quote is written as it is, and a backslash is an escape of itself.
    have hplain : ∀ d, (Escape.meaning? d).isSome ∨ (Escape.letter? d).isSome → c ≠ d := by
      rintro d hd rfl
      simp [hmeaning, hletter] at hd
    rw [hwritten] at ih ⊢
    rw [List.cons_append, ← scanString_escaped_of_plain _ (hplain '\n' (.inr rfl))
      (hplain '"' (.inl rfl)) (hplain '\\' (.inl rfl))] at ih
    rw [List.cons_append, List.cons_append, scanString_backslash, ih]
    rfl
  | case3 payload hbare ih => simp [scanString, StringScan.cons, ih]
  | case4 c payload hc l hl ih =>
    have hnewline : l ≠ '\n' := by
      rintro rfl
      simpa [Escape.meaning?] using Escape.meaning?_letter? hl
    simp [scanString, StringScan.cons, ih, hnewline]
  | case5 c payload hc hl ih =>
    have hquote : c ≠ '"' := by
      rintro rfl
      simp [Escape.letter?] at hl
    simp [scanString, StringScan.cons, ih, hc, hquote]

theorem first_string (payload rest : List Char) :
    first '"' (Escape.escape payload ++ '"' :: rest) = (string (Escape.escape payload), rest) := by
  rw [first, if_neg (by decide), if_neg (by decide), if_neg (by decide), if_neg (by decide),
    if_neg (by decide), if_neg (by decide), if_pos rfl, scanString_escape]
  rfl

end Lexeme

theorem Lexeme.chars_append_of_first {c : Char} {rest left : List Char} {lexeme : Lexeme}
    (h : first c rest = (lexeme, left)) :
    lexeme.chars ++ left = c :: rest := by
  rw [← chars_first_append c rest, h]

section

variable {start : Nat} {c : Char} {rest left : List Char} {lexeme : Lexeme} {kind : TokenKind}

theorem go_blank (hc : isBlank c) :
    tokenize.go start (c :: rest) = tokenize.go (start + c.utf8Size) rest := by
  rw [tokenize.go, if_pos hc]

theorem go_overflow (hc : ¬ isBlank c) (hfirst : Lexeme.first c rest = (lexeme, left))
    (hkind : lexeme.kind? = none) :
    tokenize.go start (c :: rest) =
      .error ⟨String.ofList lexeme.chars, ⟨start, start + byteLength lexeme.chars⟩⟩ := by
  rw [tokenize.go, if_neg hc, hfirst]
  simp only [hkind]

theorem go_lexeme (hc : ¬ isBlank c) (hfirst : Lexeme.first c rest = (lexeme, left))
    (hkind : lexeme.kind? = some kind) :
    tokenize.go start (c :: rest) =
      (tokenize.go (start + byteLength lexeme.chars) left).map
        (⟨kind, ⟨start, start + byteLength lexeme.chars⟩⟩ :: ·) := by
  rw [tokenize.go, if_neg hc, hfirst]
  simp only [hkind]
  cases tokenize.go (start + byteLength lexeme.chars) left with
  | error e => rfl
  | ok tokens => rfl

end

/--
The text, which stands at the byte offset `start`, is cut into the given tokens.
-/
inductive Cut : Nat → List Char → List Token → Prop where
  | nil (start : Nat) : Cut start [] []
  | blank {start : Nat} {c : Char} {rest : List Char} {tokens : List Token} :
    isBlank c → Cut (start + c.utf8Size) rest tokens → Cut start (c :: rest) tokens
  | token {start : Nat} {c : Char} {rest left : List Char} {lexeme : Lexeme} {kind : TokenKind}
      {tokens : List Token} :
    ¬ isBlank c → Lexeme.first c rest = (lexeme, left) → lexeme.kind? = some kind →
    Cut (start + byteLength lexeme.chars) left tokens →
    Cut start (c :: rest) (⟨kind, ⟨start, start + byteLength lexeme.chars⟩⟩ :: tokens)

theorem cut_of_go {start : Nat} {cs : List Char} {tokens : List Token}
    (h : tokenize.go start cs = .ok tokens) :
    Cut start cs tokens := by
  fun_induction tokenize.go start cs generalizing tokens with
  | case1 start =>
    cases h
    exact .nil start
  | case2 start c rest hc ih => exact .blank hc (ih h)
  | case3 => cases h
  | case4 => cases h
  | case5 start c rest hc cut span kind hkind later hgo =>
    rename_i ih
    cases h
    exact .token hc rfl hkind (ih hgo)

/--
The text is cut into tokens of the given kinds, wherever it begins.
-/
def Lexes (cs : List Char) (kinds : List TokenKind) : Prop :=
  ∀ start, ∃ tokens, tokenize.go start cs = .ok tokens ∧ tokens.map Token.kind = kinds

namespace Lexes

variable {cs rest : List Char} {kinds : List TokenKind}

theorem nil : Lexes [] [] := by
  intro start
  rw [tokenize.go]
  exact ⟨[], rfl, rfl⟩

theorem blank (h : Lexes rest kinds) : Lexes (' ' :: rest) kinds := by
  intro start
  rw [tokenize.go]
  exact h _

theorem lexeme {c : Char} {lexeme : Lexeme} {kind : TokenKind} (hc : isBlank c = false)
    (hfirst : Lexeme.first c cs = (lexeme, rest)) (hkind : lexeme.kind? = some kind)
    (h : Lexes rest kinds) :
    Lexes (c :: cs) (kind :: kinds) := by
  intro start
  obtain ⟨tokens, hgo, hkinds⟩ := h (start + byteLength lexeme.chars)
  rw [tokenize.go, hc, hfirst]
  simp [hkind, hgo, hkinds]

theorem leftParen (h : Lexes rest kinds) : Lexes ('(' :: rest) (.leftParen :: kinds) :=
  h.lexeme rfl rfl rfl

theorem rightParen (h : Lexes rest kinds) : Lexes (')' :: rest) (.rightParen :: kinds) :=
  h.lexeme rfl rfl rfl

theorem dot (h : Lexes rest kinds) : Lexes ('.' :: rest) (.dot :: kinds) :=
  h.lexeme rfl rfl rfl

theorem quote (h : Lexes rest kinds) : Lexes ('\'' :: rest) (.quote :: kinds) :=
  h.lexeme rfl rfl rfl

theorem symbol {name : String} (hname : isSymbolName name.toList) (hrest : Breaks rest)
    (h : Lexes rest kinds) :
    Lexes (name.toList ++ rest) (.symbol name :: kinds) := by
  cases hcs : name.toList with
  | nil => simp [hcs, isSymbolName] at hname
  | cons c cs =>
    rw [hcs] at hname
    have hpart := isSymbolPart_of_mem_name hname c List.mem_cons_self
    apply h.lexeme (isBlank_eq_false_of_isSymbolPart hpart) (Lexeme.first_symbol hname hrest)
    rw [Lexeme.kind?, ← hcs, String.ofList_toList]

theorem integer {value : Int64} (hvalue : 0 ≤ value.toInt) (hrest : Breaks rest)
    (h : Lexes rest kinds) :
    Lexes ((toString value.toInt).toList ++ rest) (.integer value :: kinds) := by
  obtain ⟨n, hn⟩ := Int.eq_ofNat_of_zero_le hvalue
  have hdigits : (toString value.toInt).toList = Nat.toDigits 10 n := by
    rw [hn]
    exact Nat.toList_repr
  rw [hdigits]
  cases hcs : Nat.toDigits 10 n with
  | nil => simp at hcs
  | cons c cs =>
    have hall : ∀ d ∈ c :: cs, d.isDigit := by
      rw [← hcs]
      intro d
      exact Nat.isDigit_of_mem_toDigits (by decide) (by decide)
    have hpart := isSymbolPart_of_isDigit (hall c List.mem_cons_self)
    apply h.lexeme (isBlank_eq_false_of_isSymbolPart hpart) (Lexeme.first_digits hall hrest)
    rw [Lexeme.kind?, ← hcs, Nat.ofDigitChars_ten_toDigits, integerOfInt?_eq_some_iff.mpr hn]
    rfl

theorem string (payload : String) (h : Lexes rest kinds) :
    Lexes ('"' :: (Escape.escape payload.toList ++ '"' :: rest)) (.string payload :: kinds) := by
  apply h.lexeme rfl (Lexeme.first_string payload.toList rest)
  rw [Lexeme.kind?, Escape.unescape_escape, String.ofList_toList]

end Lexes

/--
What a text can make of a token: symbols have a symbol's name, and integers have no sign.
-/
def TokenKind.IsLexical : TokenKind → Prop
  | .symbol name => isSymbolName name.toList
  | .integer value => 0 ≤ value.toInt
  | _ => True

theorem Lexeme.isLexical_of_kind? {c : Char} {rest : List Char} {kind : TokenKind}
    (h : (first c rest).1.kind? = some kind) :
    kind.IsLexical := by
  revert h
  fun_cases first c rest with
  | case5 _ _ _ _ hstart =>
    rintro ⟨⟩
    rw [TokenKind.IsLexical, String.toList_ofList, isSymbolName, hstart, List.all_takeWhile]
    rfl
  | case6 =>
    intro h
    obtain ⟨value, hvalue, rfl⟩ := Option.map_eq_some_iff.mp h
    rw [integerOfInt?_eq_some_iff] at hvalue
    rw [TokenKind.IsLexical, hvalue]
    exact Int.natCast_nonneg _
  | case7 _ _ _ _ _ _ _ scan =>
    cases scan.closed with
    | true =>
      rintro ⟨⟩
      trivial
    | false =>
      rintro ⟨⟩
      trivial
  | _ =>
    rintro ⟨⟩
    trivial

theorem isLexical_of_go {start : Nat} {cs : List Char} {tokens : List Token}
    (h : tokenize.go start cs = .ok tokens) :
    ∀ token ∈ tokens, token.kind.IsLexical := by
  fun_induction tokenize.go start cs generalizing tokens with
  | case1 =>
    cases h
    simp
  | case2 start c rest _ ih => exact ih h
  | case3 => cases h
  | case4 => cases h
  | case5 start c rest _ cut span kind hkind tokens hgo =>
    rename_i ih
    cases h
    simp only [List.mem_cons, forall_eq_or_imp]
    exact ⟨Lexeme.isLexical_of_kind? hkind, ih hgo⟩

theorem isLexical_of_tokenize {text : String} {tokens : List Token}
    (h : tokenize text = .ok tokens) :
    ∀ token ∈ tokens, token.kind.IsLexical :=
  isLexical_of_go h

end ChatLisp
