import ChatLisp.Proofs.Token.Joining
import ChatLisp.Proofs.Token.Munch

/-!
This module contains the texts that the lexer refuses. Every text is cut into segments by the
longest match in one way, whether it is refused or not, and it is refused for the first segment that
is an integer literal out of range. What stands behind that segment does not matter.
-/

namespace ChatLisp

/--
The front of the text that the longest match takes: a blank, the longest word that a pattern has
there, or a character that begins no word.
-/
inductive Takes : List Char → List Char → Prop where
  | blank {c : Char} {rest : List Char} : c ∈ blanks → Takes (c :: rest) [c]
  | word {pattern : Pattern} {word text : List Char} :
    pattern.Longest word text → Takes text word
  | stray {c : Char} {rest : List Char} :
    c ∉ blanks → (∀ (pattern : Pattern) (word : List Char), word ∈ pattern.language →
      ¬ word <+: c :: rest) → Takes (c :: rest) [c]

/--
The text as the longest match cuts it.
-/
inductive Segmentation : List Char → List (List Char) → Prop where
  | nil : Segmentation [] []
  | cons {segment rest : List Char} {segments : List (List Char)} :
    Takes (segment ++ rest) segment → Segmentation rest segments →
    Segmentation (segment ++ rest) (segment :: segments)

/--
The segment is an integer literal, and its value exceeds the largest integer.
-/
def Overflows (segment : List Char) : Prop :=
  segment ∈ Pattern.digits.language ∧ 2 ^ 63 - 1 < Nat.ofDigitChars 10 segment 0

/--
The error tells of the first of the segments that overflows: its digits as they were typed, and the
bytes that it takes up, if the segments begin at the byte offset `start`.
-/
def IsFirstOverflow (start : Nat) (segments : List (List Char)) (e : IntegerOverflow) : Prop :=
  ∃ before digits after, segments = before ++ digits :: after ∧
    (∀ segment ∈ before, ¬ Overflows segment) ∧ Overflows digits ∧
    e = ⟨String.ofList digits, ⟨start + byteLength before.flatten,
      start + byteLength before.flatten + byteLength digits⟩⟩

section

variable {start : Nat} {c : Char} {rest text segment : List Char} {segments : List (List Char)}
  {e : IntegerOverflow}

theorem Pattern.not_mem_blanks_of_starts {pattern : Pattern} (h : pattern.starts c) :
    c ∉ blanks := by
  rw [← isBlank_iff]
  intro hblank
  cases pattern with
  | symbol =>
    have hstart : isSymbolStart c := h
    have hpart : isSymbolPart c := by rw [isSymbolPart, hstart, Bool.true_or]
    simp [isBlank_eq_false_of_isSymbolPart hpart] at hblank
  | digits => simp [isBlank_eq_false_of_isSymbolPart (isSymbolPart_of_isDigit h)] at hblank
  | _ =>
    cases of_decide_eq_true h
    exact absurd hblank (by decide)

theorem takes_cases (h : Takes text segment) :
    (∃ pattern : Pattern, pattern.Longest segment text) ∨
      (∃ c rest, text = c :: rest ∧ segment = [c]) ∧
        ∀ (pattern : Pattern) (word : List Char), word ∈ pattern.language → ¬ word <+: text := by
  cases h with
  | blank hc =>
    refine .inr ⟨⟨_, _, rfl, rfl⟩, ?_⟩
    intro pattern word hword hfront
    obtain ⟨_, _, _, hstarts⟩ := Pattern.exists_eq_cons_of_front hword hfront
    exact pattern.not_mem_blanks_of_starts hstarts hc
  | word hlongest => exact .inl ⟨_, hlongest⟩
  | stray _ hnone => exact .inr ⟨⟨_, _, rfl, rfl⟩, hnone⟩

theorem Takes.unique {segment' : List Char} (h : Takes text segment) (h' : Takes text segment') :
    segment = segment' := by
  obtain ⟨pattern, hlongest⟩ | ⟨⟨c, rest, rfl, rfl⟩, hnone⟩ := takes_cases h
  . obtain ⟨pattern', hlongest'⟩ | ⟨_, hnone'⟩ := takes_cases h'
    . have hle := hlongest.longest pattern' segment' hlongest'.mem hlongest'.front
      have hle' := hlongest'.longest pattern segment hlongest.mem hlongest.front
      exact (List.prefix_of_prefix_length_le hlongest.front hlongest'.front hle').eq_of_length
        (Nat.le_antisymm hle' hle)
    . exact absurd hlongest.front (hnone' pattern segment hlongest.mem)
  . obtain ⟨pattern', hlongest'⟩ | ⟨⟨_, _, ⟨⟩, rfl⟩, _⟩ := takes_cases h'
    . exact absurd hlongest'.front (hnone pattern' segment' hlongest'.mem)
    . rfl

theorem Takes.ne_nil (h : Takes text segment) : segment ≠ [] := by
  cases h with
  | word hlongest => exact hlongest.ne_nil
  | _ => exact List.cons_ne_nil _ _

theorem Segmentation.unique {segments' : List (List Char)} (h : Segmentation text segments)
    (h' : Segmentation text segments') :
    segments = segments' := by
  induction h generalizing segments' with
  | nil =>
    generalize htext : [] = text at h'
    cases h' with
    | nil => rfl
    | cons htakes _ => exact absurd (List.append_eq_nil_iff.mp htext.symm).1 htakes.ne_nil
  | @cons segment rest segments htakes _ ih =>
    generalize htext : segment ++ rest = text at h'
    cases h' with
    | nil => exact absurd (List.append_eq_nil_iff.mp htext).1 htakes.ne_nil
    | cons htakes' hrest' =>
      rw [← htext] at htakes'
      obtain rfl := htakes.unique htakes'
      obtain rfl := List.append_cancel_left htext
      rw [ih hrest']

theorem overflows_iff :
    Overflows segment ↔
      (∀ d ∈ segment, d.isDigit) ∧ 2 ^ 63 - 1 < Nat.ofDigitChars 10 segment 0 := by
  cases segment with
  | nil => simp [Overflows]
  | cons d ds =>
    rw [Overflows, Pattern.mem_digits, List.forall_mem_cons]
    refine and_congr_left fun _ => ?_
    constructor
    . rintro ⟨_, _, ⟨⟩, hdigits⟩
      exact hdigits
    . intro hdigits
      exact ⟨d, ds, rfl, hdigits⟩

theorem overflows_zeros (n : Nat) (digits : List Char) :
    Overflows (List.replicate n '0' ++ digits) ↔ Overflows digits := by
  have hzeros : ∀ d ∈ List.replicate n '0', d.isDigit := by
    intro d hd
    rw [List.eq_of_mem_replicate hd]
    rfl
  rw [overflows_iff, overflows_iff, List.forall_mem_append, Nat.ofDigitChars_append,
    Nat.ofDigitChars_replicate_zero, Nat.mul_zero]
  exact and_congr_left fun _ => and_iff_right hzeros

theorem integerOfInt?_natCast_eq_none_iff {n : Nat} : integerOfInt? n = none ↔ 2 ^ 63 - 1 < n := by
  simp only [integerOfInt?, ite_eq_right_iff, reduceCtorEq, imp_false]
  omega

namespace Lexeme

theorem isDigit_of_kind?_eq_none (h : (first c rest).1.kind? = none) : c.isDigit := by
  revert h
  fun_cases first c rest with
  | case6 _ _ _ _ _ hdigit => exact fun _ => hdigit
  | case7 _ _ _ _ _ _ _ scan => cases scan.closed <;> simp [kind?]
  | _ => simp [kind?]

theorem kind?_digits_eq_none_iff {run : List Char} (hrun : ∀ d ∈ run, d.isDigit) :
    (digits run).kind? = none ↔ Overflows run := by
  rw [kind?, Option.map_eq_none_iff, integerOfInt?_natCast_eq_none_iff, overflows_iff,
    and_iff_right hrun]

theorem forall_isDigit_takeWhile (hc : c.isDigit) (rest : List Char) :
    ∀ d ∈ c :: rest.takeWhile Char.isDigit, d.isDigit :=
  List.forall_mem_cons.mpr ⟨hc, fun _ => List.mem_takeWhile_imp⟩

theorem kind?_first_eq_none_iff :
    (first c rest).1.kind? = none ↔ Overflows (first c rest).1.chars := by
  constructor
  . intro hkind
    have hc := isDigit_of_kind?_eq_none hkind
    rw [first_of_isDigit hc] at hkind ⊢
    exact (kind?_digits_eq_none_iff (forall_isDigit_takeWhile hc rest)).mp hkind
  . intro hoverflows
    obtain ⟨d, ds, hchars, hd, _⟩ := Pattern.mem_digits.mp hoverflows.1
    have hc : c.isDigit := by
      have happend := chars_first_append c rest
      rw [hchars] at happend
      rw [← (List.cons.inj happend).1]
      exact hd
    rw [first_of_isDigit hc] at hoverflows ⊢
    exact (kind?_digits_eq_none_iff (forall_isDigit_takeWhile hc rest)).mpr hoverflows

theorem takes_first (hc : ¬ isBlank c) (rest : List Char) :
    Takes (c :: rest) (first c rest).1.chars := by
  cases hkind : (first c rest).1.kind? with
  | none =>
    have hdigit := isDigit_of_kind?_eq_none hkind
    rw [first_of_isDigit hdigit]
    exact .word (Pattern.longest_digits hdigit rest)
  | some kind =>
    generalize hfirst : first c rest = cut at hkind
    have hmunch := munch_first hc hfirst hkind
    generalize cut.1.chars = word at hmunch
    cases hmunch with
    | word hlongest _ => exact .word hlongest
    | stray hblank hnone => exact .stray hblank hnone

end Lexeme

theorem exists_segmentation (text : List Char) : ∃ segments, Segmentation text segments := by
  induction hlength : text.length using Nat.strong_induction_on generalizing text with
  | h n ih =>
    cases text with
    | nil => exact ⟨[], .nil⟩
    | cons c rest =>
      by_cases hc : isBlank c
      . obtain ⟨segments, hsegments⟩ := ih rest.length (by simp [← hlength]) rest rfl
        have htakes : Takes ([c] ++ rest) [c] := .blank (isBlank_iff.mp hc)
        exact ⟨_, .cons htakes hsegments⟩
      . have hlt := Lexeme.length_first_lt c rest
        obtain ⟨segments, hsegments⟩ := ih _ (hlength ▸ hlt) (Lexeme.first c rest).2 rfl
        have htakes := Lexeme.takes_first hc rest
        rw [← Lexeme.chars_first_append c rest] at htakes ⊢
        exact ⟨_, .cons htakes hsegments⟩

theorem isFirstOverflow_cons_of_overflows (h : Overflows segment) :
    IsFirstOverflow start (segment :: segments) e ↔
      e = ⟨String.ofList segment, ⟨start, start + byteLength segment⟩⟩ := by
  constructor
  . rintro ⟨before, digits, after, hsegments, hbefore, _, rfl⟩
    cases before with
    | nil =>
      obtain ⟨rfl, _⟩ := List.cons.inj hsegments
      rfl
    | cons first before =>
      obtain ⟨rfl, _⟩ := List.cons.inj hsegments
      exact absurd h (hbefore segment List.mem_cons_self)
  . rintro rfl
    exact ⟨[], segment, segments, rfl, List.forall_mem_nil _, h, rfl⟩

theorem isFirstOverflow_cons_of_not_overflows (h : ¬ Overflows segment) :
    IsFirstOverflow start (segment :: segments) e ↔
      IsFirstOverflow (start + byteLength segment) segments e := by
  constructor
  . rintro ⟨before, digits, after, hsegments, hbefore, hdigits, rfl⟩
    cases before with
    | nil =>
      obtain ⟨rfl, _⟩ := List.cons.inj hsegments
      exact absurd hdigits h
    | cons first before =>
      obtain ⟨rfl, hrest⟩ := List.cons.inj hsegments
      refine ⟨before, digits, after, hrest, (List.forall_mem_cons.mp hbefore).2, hdigits, ?_⟩
      simp [Nat.add_assoc]
  . rintro ⟨before, digits, after, rfl, hbefore, hdigits, rfl⟩
    refine ⟨segment :: before, digits, after, rfl, List.forall_mem_cons.mpr ⟨h, hbefore⟩, hdigits,
      ?_⟩
    simp [Nat.add_assoc]

theorem exists_isFirstOverflow (start : Nat) (h : ∃ segment ∈ segments, Overflows segment) :
    ∃ e, IsFirstOverflow start segments e := by
  induction segments generalizing start with
  | nil => simp at h
  | cons segment segments ih =>
    by_cases hsegment : Overflows segment
    . exact ⟨_, (isFirstOverflow_cons_of_overflows hsegment).mpr rfl⟩
    . simp only [isFirstOverflow_cons_of_not_overflows hsegment]
      apply ih
      simpa [hsegment] using h

/--
A segment that overflows ends the work, and behind any other it goes on with the rest.
-/
theorem go_of_takes (h : Takes (segment ++ rest) segment) (start : Nat) :
    (Overflows segment ∧ tokenize.go start (segment ++ rest) =
      .error ⟨String.ofList segment, ⟨start, start + byteLength segment⟩⟩) ∨
    (¬ Overflows segment ∧ ∃ tokens, tokenize.go start (segment ++ rest) =
      (tokenize.go (start + byteLength segment) rest).map (tokens ++ ·)) := by
  cases htext : segment ++ rest with
  | nil => exact absurd (List.append_eq_nil_iff.mp htext).1 h.ne_nil
  | cons c cs =>
    rw [htext] at h
    by_cases hc : isBlank c
    . obtain rfl := h.unique (.blank (isBlank_iff.mp hc))
      obtain ⟨_, rfl⟩ := List.cons.inj htext
      refine .inr ⟨?_, [], ?_⟩
      . rw [overflows_iff]
        rintro ⟨hdigits, _⟩
        have hdigit := hdigits c List.mem_cons_self
        simp [isBlank_eq_false_of_isSymbolPart (isSymbolPart_of_isDigit hdigit)] at hc
      . rw [go_blank hc]
        exact (congrFun Except.map_id _).symm
    -- The lexer takes what the longest match takes, so the segment is the text of its lexeme.
    . obtain rfl := h.unique (Lexeme.takes_first hc cs)
      rw [← Lexeme.chars_first_append c cs] at htext
      obtain rfl := List.append_cancel_left htext
      rw [← Lexeme.kind?_first_eq_none_iff]
      cases hkind : (Lexeme.first c cs).1.kind? with
      | none => exact .inl ⟨rfl, go_overflow hc rfl hkind⟩
      | some kind => exact .inr ⟨nofun, [_], go_lexeme hc rfl hkind⟩

theorem Segmentation.go_eq_error_iff (h : Segmentation text segments) :
    tokenize.go start text = .error e ↔ IsFirstOverflow start segments e := by
  induction h generalizing start with
  | nil =>
    rw [tokenize.go]
    constructor
    . intro h
      cases h
    . rintro ⟨before, digits, after, hsegments, _⟩
      simp at hsegments
  | cons htakes _ ih =>
    obtain ⟨hoverflows, hgo⟩ | ⟨hfits, tokens, hgo⟩ := go_of_takes htakes start
    . rw [hgo, isFirstOverflow_cons_of_overflows hoverflows, Except.error.injEq, eq_comm]
    . rw [hgo, isFirstOverflow_cons_of_not_overflows hfits, ← ih]
      cases tokenize.go (start + _) _ <;> simp [Except.map]

theorem Lexeme.first_append_of_isDigit {more : List Char} (hc : c.isDigit)
    (hmore : ∀ d ∈ more.head?, ¬ d.isDigit) :
    first c (rest ++ more) = ((first c rest).1, (first c rest).2 ++ more) := by
  rw [first_of_isDigit hc, first_of_isDigit hc, takeWhile_append_of_head fun _ => hmore,
    dropWhile_append_of_head fun _ => hmore]

theorem go_error_append {more : List Char} (hmore : ∀ d ∈ more.head?, ¬ d.isDigit)
    (h : tokenize.go start text = .error e) :
    tokenize.go start (text ++ more) = .error e := by
  fun_induction tokenize.go start text with
  | case1 => cases h
  | case2 start c rest hc ih => rw [List.cons_append, go_blank hc, ih h]
  | case3 start c rest hc cut span hkind =>
    have hdigit := Lexeme.isDigit_of_kind?_eq_none hkind
    rw [List.cons_append, go_overflow hc (Lexeme.first_append_of_isDigit hdigit hmore) hkind, ← h]
  | case4 start c rest hc cut span kind hkind e' hgo ih =>
    -- The error is behind the lexeme, so this does not reach the end of the text.
    have hleft : cut.2 ≠ [] := by
      intro hleft
      rw [hleft, tokenize.go] at hgo
      cases hgo
    have hfirst : Lexeme.first c (rest ++ more) = (cut.1, cut.2 ++ more) :=
      Lexeme.first_append (fun hnil => absurd hnil hleft) rfl fun _ _ _ => hleft
    rw [List.cons_append, go_lexeme hc hfirst hkind, ih (hgo.trans h)]
    rfl
  | case5 => cases h

end

/--
A text is refused exactly if an integer literal out of range is among its segments, and the error
tells of the first one. What follows such a text behind a blank does not change this, nor behind any
other character that is no digit and so does not go on with the literal.
-/
theorem tokenize_refuses_iff (text : String) :
    ∃ segments, (∀ other, Segmentation text.toList other ↔ other = segments) ∧
      ((∃ e, tokenize text = .error e) ↔ ∃ segment ∈ segments, Overflows segment) ∧
      (∀ e, tokenize text = .error e ↔ IsFirstOverflow 0 segments e) ∧
      (∀ n digits, Overflows (List.replicate n '0' ++ digits) ↔ Overflows digits) ∧
      ∀ e, tokenize text = .error e → ∀ (c : Char) (more : String), ¬ c.isDigit →
        tokenize (text ++ String.singleton c ++ more) = .error e := by
  obtain ⟨segments, hsegments⟩ := exists_segmentation text.toList
  refine ⟨segments, ?_, ?_, fun _ => hsegments.go_eq_error_iff, overflows_zeros, ?_⟩
  . intro other
    constructor
    . exact fun hother => hother.unique hsegments
    . rintro rfl
      exact hsegments
  . constructor
    . rintro ⟨e, he⟩
      obtain ⟨before, digits, after, rfl, _, hdigits, _⟩ := hsegments.go_eq_error_iff.mp he
      exact ⟨digits, by simp, hdigits⟩
    . intro hoverflows
      obtain ⟨e, he⟩ := exists_isFirstOverflow 0 hoverflows
      exact ⟨e, hsegments.go_eq_error_iff.mpr he⟩
  . intro e he c more hc
    have hmore : ∀ d ∈ (c :: more.toList).head?, ¬ d.isDigit := by
      rintro _ ⟨⟩
      exact hc
    have happend := go_error_append hmore he
    unfold tokenize
    simpa using happend

/--
The digits of a symbol do not count, nor do zeros in front of a literal, while the text behind the
literal that is too large is not looked at.
-/
theorem tokenize_refuses_iff_zeros :
    let text := "é x9223372036854775808 007 09223372036854775808"
    let e : IntegerOverflow := ⟨"09223372036854775808", ⟨28, 48⟩⟩
    tokenize text = .error e ∧
    ∀ more : String, tokenize (text ++ String.singleton '\n' ++ more) = .error e := by
  intro text e
  have htext : tokenize text = .error e := by cbv
  obtain ⟨_, _, _, _, _, happend⟩ := tokenize_refuses_iff text
  exact ⟨htext, fun more => happend e htext '\n' more (by decide)⟩

end ChatLisp
