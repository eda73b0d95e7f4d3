import ChatLisp.Proofs.Token.Pattern

/-!
This module contains the maximal munch of the lexer: it cuts a text into the longest words that its
patterns have, and into single characters where they have none.
-/

namespace ChatLisp

namespace Pattern

/--
The text begins with a word of the pattern, and with no longer word of any pattern.
-/
structure Longest (pattern : Pattern) (word text : List Char) : Prop where
  mem : word ∈ pattern.language
  front : word <+: text
  longest : ∀ (other : Pattern) (longer : List Char), longer ∈ other.language → longer <+: text →
    longer.length ≤ word.length

/--
The characters that words of the pattern begin with.
-/
def starts : Pattern → Char → Bool
  | leftParen, c => c = '('
  | rightParen, c => c = ')'
  | dot, c => c = '.'
  | quote, c => c = '\''
  | symbol, c => isSymbolStart c
  | digits, c => c.isDigit
  | string, c => c = '"'
  | openString, c => c = '"'

theorem exists_eq_cons_of_mem {pattern : Pattern} {word : List Char}
    (h : word ∈ pattern.language) :
    ∃ c cs, word = c :: cs ∧ pattern.starts c := by
  cases pattern with
  | symbol =>
    obtain ⟨c, cs, rfl, hc, _⟩ := mem_symbol.mp h
    exact ⟨c, cs, rfl, hc⟩
  | digits =>
    obtain ⟨c, cs, rfl, hc, _⟩ := mem_digits.mp h
    exact ⟨c, cs, rfl, hc⟩
  | string =>
    obtain ⟨pieces, _, rfl⟩ := mem_string.mp h
    exact ⟨_, _, rfl, rfl⟩
  | openString =>
    obtain ⟨pieces, last, _, _, rfl⟩ := mem_openString.mp h
    exact ⟨_, _, rfl, rfl⟩
  | _ => exact ⟨_, _, h, rfl⟩

theorem Longest.ne_nil {pattern : Pattern} {word text : List Char}
    (h : pattern.Longest word text) :
    word ≠ [] := by
  obtain ⟨c, cs, rfl, _⟩ := exists_eq_cons_of_mem h.mem
  exact List.cons_ne_nil c cs

theorem exists_eq_cons_of_front {pattern : Pattern} {word : List Char} {c : Char}
    {rest : List Char} (h : word ∈ pattern.language) (hfront : word <+: c :: rest) :
    ∃ cs, word = c :: cs ∧ cs <+: rest ∧ pattern.starts c := by
  obtain ⟨d, cs, rfl, hd⟩ := exists_eq_cons_of_mem h
  obtain ⟨rfl, hcs⟩ := List.cons_prefix_cons.mp hfront
  exact ⟨cs, rfl, hcs, hd⟩

theorem longest_cons {pattern : Pattern} {c : Char} {cs rest : List Char}
    (hmem : c :: cs ∈ pattern.language) (hfront : cs <+: rest)
    (hlongest : ∀ (other : Pattern) (longer : List Char), other.starts c →
      c :: longer ∈ other.language → longer <+: rest → longer.length ≤ cs.length) :
    pattern.Longest (c :: cs) (c :: rest) := by
  constructor
  . exact hmem
  . exact List.cons_prefix_cons.mpr ⟨rfl, hfront⟩
  . intro other longer hlonger hfront
    obtain ⟨ds, rfl, hds, hstarts⟩ := exists_eq_cons_of_front hlonger hfront
    exact Nat.succ_le_succ (hlongest other ds hstarts hlonger hds)

end Pattern

theorem length_le_length_takeWhile {p : Char → Bool} {cs rest : List Char} (hfront : cs <+: rest)
    (hcs : ∀ c ∈ cs, p c) :
    cs.length ≤ (rest.takeWhile p).length := by
  obtain ⟨back, rfl⟩ := hfront
  rw [List.takeWhile_append_of_pos hcs, List.length_append]
  exact Nat.le_add_right _ _

namespace Lexeme

theorem scanString_pieces {pieces : List Piece} (hpieces : ∀ piece ∈ pieces, piece.IsValid)
    (rest : List Char) :
    scanString false (pieces.flatMap Piece.chars ++ rest) =
      { scanString false rest with
        inside := pieces.flatMap Piece.chars ++ (scanString false rest).inside } := by
  induction pieces with
  | nil => rfl
  | cons piece pieces ih =>
    obtain ⟨hpiece, hmore⟩ := List.forall_mem_cons.mp hpieces
    cases piece with
    | plain c =>
      obtain ⟨hquote, hslash⟩ := hpiece
      simp [Piece.chars, scanString, hquote, hslash, ih hmore, StringScan.cons]
    | escape c =>
      have hnewline : c ≠ '\n' := hpiece
      simp [Piece.chars, scanString, hnewline, ih hmore, StringScan.cons]

theorem exists_pieces_scanString (escaped : Bool) (text : List Char) :
    ∃ (pieces : List Piece) (last : List Char), (∀ piece ∈ pieces, piece.IsValid) ∧
      (last = [] ∨ last = ['\\'] ∧ (scanString escaped text).closed = false) ∧
      cond escaped ['\\'] [] ++ (scanString escaped text).inside =
        pieces.flatMap Piece.chars ++ last := by
  -- Behind a backslash, the first piece is the escape that it opens.
  fun_induction scanString escaped text with
  | case1 escaped =>
    cases escaped with
    | false => exact ⟨[], [], List.forall_mem_nil _, .inl rfl, rfl⟩
    | true => exact ⟨[], ['\\'], List.forall_mem_nil _, .inr ⟨rfl, rfl⟩, rfl⟩
  | case2 rest => exact ⟨[], ['\\'], List.forall_mem_nil _, .inr ⟨rfl, rfl⟩, rfl⟩
  | case3 c rest hnewline ih =>
    obtain ⟨pieces, last, hpieces, hlast, hinside⟩ := ih
    refine ⟨.escape c :: pieces, last, List.forall_mem_cons.mpr ⟨hnewline, hpieces⟩, hlast, ?_⟩
    simpa [StringScan.cons, Piece.chars] using hinside
  | case4 escaped rest hescaped =>
    exact ⟨[], [], List.forall_mem_nil _, .inl rfl, by simp [hescaped]⟩
  | case5 escaped c rest hescaped hquote ih =>
    obtain ⟨pieces, last, hpieces, hlast, hinside⟩ := ih
    by_cases hslash : c = '\\'
    . refine ⟨pieces, last, hpieces, hlast, ?_⟩
      simpa [StringScan.cons, hslash, hescaped] using hinside
    . refine ⟨.plain c :: pieces, last,
        List.forall_mem_cons.mpr ⟨⟨hquote, hslash⟩, hpieces⟩, hlast, ?_⟩
      simpa [StringScan.cons, Piece.chars, hslash, hescaped] using hinside

end Lexeme

namespace Pattern

theorem longest_symbol {c : Char} (hc : isSymbolStart c) (rest : List Char) :
    symbol.Longest (c :: rest.takeWhile isSymbolPart) (c :: rest) := by
  apply longest_cons
  . rw [mem_symbol]
    exact ⟨c, _, rfl, hc, fun _ => List.mem_takeWhile_imp⟩
  . exact List.takeWhile_prefix _
  . intro other longer hother hlonger hfront
    cases other with
    | symbol =>
      obtain ⟨_, _, ⟨⟩, _, hparts⟩ := mem_symbol.mp hlonger
      exact length_le_length_takeWhile hfront hparts
    | digits => exact absurd hc (not_isSymbolStart_of_isDigit hother)
    | _ =>
      cases of_decide_eq_true hother
      exact absurd hc (by decide)

theorem longest_digits {c : Char} (hc : c.isDigit) (rest : List Char) :
    digits.Longest (c :: rest.takeWhile Char.isDigit) (c :: rest) := by
  apply longest_cons
  . rw [mem_digits]
    exact ⟨c, _, rfl, hc, fun _ => List.mem_takeWhile_imp⟩
  . exact List.takeWhile_prefix _
  . intro other longer hother hlonger hfront
    cases other with
    | digits =>
      obtain ⟨_, _, ⟨⟩, _, hdigits⟩ := mem_digits.mp hlonger
      exact length_le_length_takeWhile hfront hdigits
    | symbol => exact absurd hother (not_isSymbolStart_of_isDigit hc)
    | _ =>
      cases of_decide_eq_true hother
      exact absurd hc (by decide)

open Lexeme

theorem length_le_of_string {pattern : Pattern} {word rest : List Char}
    (hpattern : pattern.starts '"') (hmem : '"' :: word ∈ pattern.language)
    (hfront : word <+: rest) :
    word.length ≤
      (scanString false rest).inside.length + ((scanString false rest).closed).toNat := by
  obtain ⟨back, rfl⟩ := hfront
  cases pattern with
  | string =>
    obtain ⟨pieces, hpieces, ⟨⟩⟩ := mem_string.mp hmem
    rw [List.append_assoc, scanString_pieces hpieces]
    simp [scanString]
  | openString =>
    obtain ⟨pieces, last, hpieces, hlast, ⟨⟩⟩ := mem_openString.mp hmem
    rw [List.append_assoc, scanString_pieces hpieces]
    rcases hlast with rfl | rfl
    . simp
      omega
    . simp [scanString, StringScan.cons]
      omega
  | _ => exact absurd hpattern (by decide)

theorem longest_string {rest : List Char} (hclosed : (scanString false rest).closed) :
    string.Longest ('"' :: ((scanString false rest).inside ++ ['"'])) ('"' :: rest) := by
  have htext := text_scanString false rest
  rw [StringScan.text, hclosed, cond_true, List.append_cons] at htext
  obtain ⟨pieces, last, hpieces, hlast, hinside⟩ := exists_pieces_scanString false rest
  apply longest_cons
  . rw [mem_string]
    obtain rfl | ⟨_, hopen⟩ := hlast
    . rw [List.append_nil] at hinside
      exact ⟨pieces, hpieces, by rw [← hinside]; rfl⟩
    . simp [hclosed] at hopen
  . exact ⟨_, htext⟩
  . intro other longer hother hlonger hfront
    have hle := length_le_of_string hother hlonger hfront
    rw [hclosed] at hle
    simpa using hle

theorem longest_openString {rest : List Char} (hopen : (scanString false rest).closed = false) :
    openString.Longest ('"' :: (scanString false rest).inside) ('"' :: rest) := by
  have htext := text_scanString false rest
  rw [StringScan.text, hopen, cond_false] at htext
  obtain ⟨pieces, last, hpieces, hlast, hinside⟩ := exists_pieces_scanString false rest
  apply longest_cons
  . rw [mem_openString]
    exact ⟨pieces, last, hpieces, hlast.imp_right And.left, congrArg ('"' :: ·) hinside⟩
  . exact ⟨_, htext⟩
  . intro other longer hother hlonger hfront
    have hle := length_le_of_string hother hlonger hfront
    rw [hopen] at hle
    exact hle

end Pattern

theorem Piece.payload_escape (c : Char) :
    (escape c).payload = ((Escape.meaning? c).map fun x => [x]).getD ['\\', c] := by
  unfold payload
  split
  all_goals simp_all [Escape.meaning?]

theorem Escape.unescape_pieces {pieces : List Piece} (hpieces : ∀ piece ∈ pieces, piece.IsValid) :
    unescape (pieces.flatMap Piece.chars) = pieces.flatMap Piece.payload := by
  induction pieces with
  | nil => rfl
  | cons piece pieces ih =>
    obtain ⟨hpiece, hmore⟩ := List.forall_mem_cons.mp hpieces
    rw [List.flatMap_cons, List.flatMap_cons, ← ih hmore]
    cases piece with
    | plain c =>
      cases pieces.flatMap Piece.chars with
      | nil => rfl
      | cons d rest => simp [Piece.chars, Piece.payload, unescape, hpiece.2]
    | escape c =>
      rw [Piece.payload_escape]
      simp only [Piece.chars, List.cons_append, List.nil_append, unescape, if_pos]
      cases meaning? c with
      | none => rfl
      | some x => rfl

/--
The first token of a text that begins with no blank, and the word that it is made from: the longest
word that a pattern has there, or a character that begins no word.
-/
inductive Munch : List Char → List Char → TokenKind → Prop where
  | word {pattern : Pattern} {word text : List Char} {kind : TokenKind} :
    pattern.Longest word text → pattern.Denotes word kind → Munch text word kind
  | stray {c : Char} {rest : List Char} :
    c ∉ blanks → (∀ (pattern : Pattern) (word : List Char), word ∈ pattern.language →
      ¬ word <+: c :: rest) → Munch (c :: rest) [c] (.invalid (String.ofList [c]))

theorem munch_singleton {pattern : Pattern} {c : Char} {kind : TokenKind}
    (hdenotes : pattern.Denotes [c] kind) (hlanguage : pattern.language = {[c]})
    (hstarts : ∀ other : Pattern, other.starts c → other = pattern) (rest : List Char) :
    Munch (c :: rest) [c] kind := by
  apply Munch.word _ hdenotes
  apply Pattern.longest_cons
  . rw [hlanguage]
    rfl
  . exact List.nil_prefix
  . intro other longer hother hlonger _
    rw [hstarts other hother, hlanguage] at hlonger
    cases hlonger
    exact Nat.le_refl 0

theorem munch_first {c : Char} {rest left : List Char} {lexeme : Lexeme} {kind : TokenKind}
    (hc : ¬ isBlank c) (hfirst : Lexeme.first c rest = (lexeme, left))
    (hkind : lexeme.kind? = some kind) :
    Munch (c :: rest) lexeme.chars kind := by
  obtain rfl : (Lexeme.first c rest).1 = lexeme := congrArg Prod.fst hfirst
  revert hkind
  clear hfirst
  fun_cases Lexeme.first c rest with
  | case1 h =>
    subst h
    rintro ⟨⟩
    exact munch_singleton (.leftParen _) rfl (by rintro ⟨⟩ <;> decide) rest
  | case2 _ h =>
    subst h
    rintro ⟨⟩
    exact munch_singleton (.rightParen _) rfl (by rintro ⟨⟩ <;> decide) rest
  | case3 _ _ h =>
    subst h
    rintro ⟨⟩
    exact munch_singleton (.dot _) rfl (by rintro ⟨⟩ <;> decide) rest
  | case4 _ _ _ h =>
    subst h
    rintro ⟨⟩
    exact munch_singleton (.quote _) rfl (by rintro ⟨⟩ <;> decide) rest
  | case5 _ _ _ _ hstart =>
    rintro ⟨⟩
    exact .word (Pattern.longest_symbol hstart rest) (.symbol _)
  | case6 _ _ _ _ _ hdigit =>
    intro hkind
    obtain ⟨value, hvalue, rfl⟩ := Option.map_eq_some_iff.mp hkind
    rw [integerOfInt?_eq_some_iff] at hvalue
    exact .word (Pattern.longest_digits hdigit rest) (.digits _ value hvalue)
  | case7 _ _ _ _ _ _ hquote scan =>
    subst hquote
    cases hclosed : scan.closed with
    | true =>
      rintro ⟨⟩
      have hlongest := Pattern.longest_string hclosed
      obtain ⟨pieces, hpieces, hword⟩ := Pattern.mem_string.mp hlongest.mem
      have hinside : scan.inside = pieces.flatMap Piece.chars := by simpa using hword
      refine .word hlongest ?_
      simp only [hinside, Escape.unescape_pieces hpieces]
      exact .string pieces hpieces
    | false =>
      rintro ⟨⟩
      exact .word (Pattern.longest_openString hclosed) (.openString _)
  | case8 hleft hright hdot hquote hstart hdigit hstring =>
    rintro ⟨⟩
    apply Munch.stray
    . rw [← isBlank_iff]
      exact hc
    . intro pattern word hword hfront
      obtain ⟨cs, _, _, hstarts⟩ := Pattern.exists_eq_cons_of_front hword hfront
      cases pattern <;> simp_all [Pattern.starts]

theorem Munch.word_ne_nil {text word : List Char} {kind : TokenKind} (h : Munch text word kind) :
    word ≠ [] := by
  cases h with
  | word hlongest _ => exact hlongest.ne_nil
  | stray _ _ => exact List.cons_ne_nil _ _

namespace Cut

variable {start : Nat} {cs : List Char} {tokens : List Token}

theorem exists_word (h : Cut start cs tokens) :
    ∀ token ∈ tokens, ∃ front word back, cs = front ++ word ++ back ∧
      token.span = ⟨start + byteLength front, start + byteLength front + byteLength word⟩ ∧
      Munch (word ++ back) word token.kind := by
  induction h with
  | nil => nofun
  | @blank start c rest tokens _ _ ih =>
    intro token htoken
    obtain ⟨front, word, back, rfl, hspan, hmunch⟩ := ih token htoken
    exact ⟨c :: front, word, back, rfl, by simp [hspan, Nat.add_assoc], hmunch⟩
  | @token start c rest left lexeme kind tokens hc hfirst hkind _ ih =>
    rw [← Lexeme.chars_append_of_first hfirst, List.forall_mem_cons]
    constructor
    . refine ⟨[], lexeme.chars, left, rfl, rfl, ?_⟩
      rw [Lexeme.chars_append_of_first hfirst]
      exact munch_first hc hfirst hkind
    . intro token htoken
      obtain ⟨front, word, back, rfl, hspan, hmunch⟩ := ih token htoken
      exact ⟨lexeme.chars ++ front, word, back, by simp, by simp [hspan, Nat.add_assoc], hmunch⟩

theorem pairwise (h : Cut start cs tokens) :
    tokens.Pairwise fun token later => token.span.stop ≤ later.span.start := by
  induction h with
  | nil => exact .nil
  | blank _ _ ih => exact ih
  | token _ _ _ hrest ih =>
    refine .cons ?_ ih
    intro later hlater
    obtain ⟨front, word, back, _, hspan, _⟩ := hrest.exists_word later hlater
    rw [hspan]
    exact Nat.le_add_right _ _

theorem mem_blanks_or_mem_span (h : Cut start cs tokens) {front back : List Char} {c : Char}
    (hcs : cs = front ++ c :: back) :
    c ∈ blanks ∨ ∃ token ∈ tokens, token.span.start ≤ start + byteLength front ∧
      start + byteLength front < token.span.stop := by
  induction h generalizing front with
  | nil => simp at hcs
  | blank hblank _ ih =>
    cases front with
    | nil =>
      cases hcs
      exact .inl (isBlank_iff.mp hblank)
    | cons d front =>
      obtain ⟨rfl, hrest⟩ := List.cons.inj hcs
      simpa [Nat.add_assoc] using ih hrest
  | @token start c' rest left lexeme kind tokens hc hfirst hkind _ ih =>
    rw [← Lexeme.chars_append_of_first hfirst] at hcs
    by_cases hword : lexeme.chars <+: front
    . obtain ⟨between, rfl⟩ := hword
      rw [List.append_assoc] at hcs
      refine (ih (List.append_cancel_left hcs)).imp_right ?_
      rintro ⟨token, htoken, hspan⟩
      refine ⟨token, List.mem_cons_of_mem _ htoken, ?_⟩
      simpa [Nat.add_assoc] using hspan
    . have hlt : byteLength front < byteLength lexeme.chars := by
        rcases List.append_eq_append_iff.mp hcs with ⟨between, rfl, _⟩ | ⟨inside, hinside, _⟩
        . exact absurd (List.prefix_append _ between) hword
        . rw [hinside] at hword ⊢
          cases inside with
          | nil => simp at hword
          | cons d inside =>
            have hpos := d.utf8Size_pos
            simp
            omega
      right
      refine ⟨_, List.mem_cons_self, ?_⟩
      dsimp only
      omega

end Cut

theorem byteLength_eq_utf8ByteSize (cs : List Char) :
    byteLength cs = (String.ofList cs).utf8ByteSize := by
  rw [String.utf8ByteSize_ofList]
  induction cs with
  | nil => rfl
  | cons c cs ih => rw [byteLength, ih, String.utf8Len_cons, Nat.add_comm]

theorem byteLength_toList (text : String) : byteLength text.toList = text.utf8ByteSize := by
  rw [byteLength_eq_utf8ByteSize, String.ofList_toList]

/--
Every token is made from the longest word of any pattern that stands where it stands, or from a
character that begins no word. The words stand apart, one behind the other, and there is nothing but
blanks between them.
-/
theorem tokenize_munches {text : String} {tokens : List Token} (h : tokenize text = .ok tokens) :
    (∀ token ∈ tokens, ∃ front word back : String, text = front ++ word ++ back ∧ word ≠ "" ∧
      token.span = ⟨front.utf8ByteSize, front.utf8ByteSize + word.utf8ByteSize⟩ ∧
      Munch (word ++ back).toList word.toList token.kind) ∧
    tokens.Pairwise (fun token later => token.span.stop ≤ later.span.start) ∧
    ∀ (front back : String) (c : Char), text = front ++ String.singleton c ++ back →
      c ∈ blanks ∨ ∃ token ∈ tokens, token.span.start ≤ front.utf8ByteSize ∧
        front.utf8ByteSize < token.span.stop := by
  have hcut := cut_of_go h
  refine ⟨?_, hcut.pairwise, ?_⟩
  . intro token htoken
    obtain ⟨front, word, back, htext, hspan, hmunch⟩ := hcut.exists_word token htoken
    refine ⟨String.ofList front, String.ofList word, String.ofList back, ?_, ?_, ?_, ?_⟩
    . rw [← String.ofList_append, ← String.ofList_append, ← htext, String.ofList_toList]
    . simpa using hmunch.word_ne_nil
    . simpa [byteLength_eq_utf8ByteSize] using hspan
    . simpa using hmunch
  . intro front back c htext
    have hchars : text.toList = front.toList ++ c :: back.toList := by simp [htext]
    simpa [byteLength_eq_utf8ByteSize] using hcut.mem_blanks_or_mem_span hchars

/--
A character beyond ASCII, an escape that is not known, and a literal that breaks off before a
newline.
-/
theorem tokenize_munches_broken_off :
    let text := "é \"\\q\" \"x\\\n."
    let tokens : List Token := [⟨.invalid "é", ⟨0, 2⟩⟩, ⟨.string "\\q", ⟨3, 7⟩⟩,
      ⟨.invalid "\"x\\", ⟨8, 11⟩⟩, ⟨.dot, ⟨12, 13⟩⟩]
    tokenize text = .ok tokens ∧
    (∃ front word back : String, text = front ++ word ++ back ∧ word ≠ "" ∧
      (⟨8, 11⟩ : Span) = ⟨front.utf8ByteSize, front.utf8ByteSize + word.utf8ByteSize⟩ ∧
      Munch (word ++ back).toList word.toList (.invalid "\"x\\")) ∧
    tokens.Pairwise fun token later => token.span.stop ≤ later.span.start := by
  intro text tokens
  have htext : tokenize text = .ok tokens := by cbv
  obtain ⟨hwords, hpairwise, _⟩ := tokenize_munches htext
  refine ⟨htext, ?_, hpairwise⟩
  exact hwords ⟨.invalid "\"x\\", ⟨8, 11⟩⟩ (by simp [tokens])

end ChatLisp
