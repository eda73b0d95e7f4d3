import ChatLisp.Expr.Print
import ChatLisp.Proofs.Parser.Language
import ChatLisp.Proofs.Token.Munch

/-!
This module contains the string literals that print exactly the way they were typed. Two things are
not kept: line breaks and tabs that were typed as they are, since they are printed as escapes, and
escaped backslashes that reading would also give without their escape.
-/

namespace ChatLisp

/--
The characters that a literal may contain as they are, but that are always printed as an escape.
-/
def controls : List Char :=
  ['\n', '\r', '\t']

/--
The letters that stand for these behind a backslash.
-/
def controlLetters : List Char :=
  ['n', 'r', 't']

namespace Piece

/--
The pieces of the inside of a literal, read from left to right.
-/
def split : List Char → List Piece
  | [] => []
  | [c] => [plain c]
  | c :: d :: rest => if c = '\\' then escape d :: split rest else plain c :: split (d :: rest)

theorem split_chars {pieces : List Piece} (hpieces : ∀ piece ∈ pieces, piece.IsValid) :
    split (pieces.flatMap chars) = pieces := by
  induction pieces with
  | nil => rfl
  | cons piece pieces ih =>
    obtain ⟨hpiece, hmore⟩ := List.forall_mem_cons.mp hpieces
    replace ih := ih hmore
    rw [List.flatMap_cons]
    cases piece with
    | escape c => simp [chars, split, ih]
    | plain c =>
      cases hinside : pieces.flatMap chars with
      | nil =>
        rw [hinside, split] at ih
        simp [chars, split, ← ih]
      | cons d rest =>
        rw [hinside] at ih
        simp [chars, split, hpiece.2, ih]

/--
Whether a piece may stand behind another. An escaped backslash needs its escape only if what comes
next would make an escape of a single one.
-/
def Joins (a b : Piece) : Prop :=
  a = escape '\\' → ∀ c, b = plain c → c ∈ controlLetters

theorem isChain_joins_iff {pieces : List Piece} :
    pieces.IsChain Joins ↔
      ∀ front c back, pieces = front ++ escape '\\' :: plain c :: back → c ∈ controlLetters := by
  rw [List.isChain_iff_forall_rel_of_append_cons_cons]
  constructor
  . intro h front c back hcut
    exact h hcut rfl c rfl
  . rintro h _ _ front back hcut rfl c rfl
    exact h front c back hcut

end Piece

namespace Escape

theorem letter?_eq_none_iff {c : Char} : letter? c = none ↔ c ≠ '"' ∧ c ∉ controls := by
  grind [letter?, controls]

theorem meaning?_eq_none_iff {c : Char} :
    meaning? c = none ↔ c ≠ '"' ∧ c ≠ '\\' ∧ c ∉ controlLetters := by
  grind [meaning?, controlLetters]

theorem bareBefore_escape (c : Char) (more : List Char) :
    bareBefore ((Piece.escape c).payload ++ more) = false := by
  rw [Piece.payload_escape]
  cases hmeaning : meaning? c with
  | none => rfl
  | some x => grind [bareBefore, meaning?, letter?]

theorem bareBefore_payload_iff {pieces : List Piece} (hpieces : ∀ piece ∈ pieces, piece.IsValid) :
    bareBefore (pieces.flatMap Piece.payload) ↔
      ∃ c, pieces.head? = some (.plain c) ∧ c ∉ controls ∧ c ∉ controlLetters := by
  cases pieces with
  | nil => simp [bareBefore]
  | cons piece pieces =>
    obtain ⟨hpiece, -⟩ := List.forall_mem_cons.mp hpieces
    cases piece with
    | plain c =>
      simp [bareBefore, Piece.payload, meaning?_eq_none_iff, letter?_eq_none_iff, hpiece.1,
        hpiece.2, And.comm]
    | escape c => simp [bareBefore_escape]

theorem meaning?_cases {c x : Char} (h : meaning? c = some x) :
    c = '\\' ∧ x = '\\' ∨ c ≠ '\\' ∧ x ≠ '\\' ∧ c ∉ controls ∧ letter? x = some c := by
  unfold meaning? at h
  split_ifs at h
  all_goals
    cases h
    subst c
    decide

theorem escape_backslash_eq_iff (more written : List Char) :
    escape ('\\' :: more) = '\\' :: '\\' :: written ↔
      bareBefore more = false ∧ escape more = written := by
  cases hbare : bareBefore more with
  | false => simp [escape, hbare]
  | true =>
    obtain ⟨c, rest, rfl, hmeaning, -, hwritten⟩ := exists_eq_cons_of_bareBefore hbare
    have hc := (meaning?_eq_none_iff.mp hmeaning).2.1
    rw [escape, if_pos rfl, if_pos hbare, hwritten]
    simp [hc]

theorem escape_append_eq_iff {piece : Piece} (hpiece : piece.IsValid) (more written : List Char) :
    escape (piece.payload ++ more) = piece.chars ++ written ↔
      (∀ c ∈ piece.chars, c ∉ controls) ∧ (piece = .escape '\\' → bareBefore more = false) ∧
        escape more = written := by
  cases piece with
  | plain c =>
    cases hletter : letter? c with
    | none =>
      have hcontrol := (letter?_eq_none_iff.mp hletter).2
      simp [Piece.payload, Piece.chars, escape, hpiece.2, hletter, hcontrol]
    | some l =>
      have hcontrol : c ∈ controls := by
        grind [letter?_eq_none_iff, Piece.IsValid]
      simp [Piece.payload, Piece.chars, escape, hpiece.2, hletter, hcontrol, hpiece.2.symm]
  | escape c =>
    rw [Piece.payload_escape]
    cases hmeaning : meaning? c with
    | none =>
      obtain ⟨hquote, hbackslash, -⟩ := meaning?_eq_none_iff.mp hmeaning
      cases hletter : letter? c with
      | none =>
        have hcontrol := (letter?_eq_none_iff.mp hletter).2
        have hraw : '\\' ∉ controls := by decide
        simp [Piece.chars, escape, bareBefore, hmeaning, hletter, hbackslash, hcontrol, hraw]
      | some l =>
        have hcontrol : c ∈ controls := by
          grind [letter?_eq_none_iff]
        simp [Piece.chars, escape, bareBefore, hmeaning, hletter, hbackslash.symm, hcontrol]
    | some x =>
      obtain ⟨rfl, rfl⟩ | ⟨hbackslash, hx, hcontrol, hletter⟩ := meaning?_cases hmeaning
      . have hraw : '\\' ∉ controls := by decide
        simp [Piece.chars, escape_backslash_eq_iff, hraw]
      . have hraw : '\\' ∉ controls := by decide
        simp [Piece.chars, escape, hx, hletter, hbackslash, hcontrol, hraw]

theorem forall_joins_iff {pieces : List Piece} (hpieces : ∀ piece ∈ pieces, piece.IsValid)
    (hplain : ∀ c ∈ pieces.flatMap Piece.chars, c ∉ controls) (piece : Piece) :
    (∀ next ∈ pieces.head?, piece.Joins next) ↔
      (piece = .escape '\\' → bareBefore (pieces.flatMap Piece.payload) = false) := by
  rw [← Bool.not_eq_true, bareBefore_payload_iff hpieces]
  constructor
  . rintro hjoins hpiece ⟨c, hhead, -, hletter⟩
    exact hletter (hjoins _ hhead hpiece c rfl)
  . rintro hbare _ hnext hpiece c rfl
    -- Such a character is no control, since it is typed as it is, so the backslash would be bare.
    by_contra hletter
    have hmem : c ∈ pieces.flatMap Piece.chars :=
      List.mem_flatMap.mpr ⟨.plain c, List.mem_of_mem_head? hnext, List.mem_singleton_self c⟩
    exact hbare hpiece ⟨c, hnext, hplain c hmem, hletter⟩

theorem escape_payload_eq_iff {pieces : List Piece} (hpieces : ∀ piece ∈ pieces, piece.IsValid) :
    escape (pieces.flatMap Piece.payload) = pieces.flatMap Piece.chars ↔
      (∀ c ∈ pieces.flatMap Piece.chars, c ∉ controls) ∧ pieces.IsChain Piece.Joins := by
  induction pieces with
  | nil => simp [escape]
  | cons piece pieces ih =>
    obtain ⟨hpiece, hmore⟩ := List.forall_mem_cons.mp hpieces
    rw [List.flatMap_cons, List.flatMap_cons, escape_append_eq_iff hpiece, ih hmore,
      List.forall_mem_append, List.isChain_cons]
    constructor
    . rintro ⟨hfirst, hbare, hplain, hchain⟩
      exact ⟨⟨hfirst, hplain⟩, (forall_joins_iff hmore hplain piece).mpr hbare, hchain⟩
    . rintro ⟨⟨hfirst, hplain⟩, hjoins, hchain⟩
      exact ⟨hfirst, (forall_joins_iff hmore hplain piece).mp hjoins, hplain, hchain⟩

end Escape

theorem munch_of_whole {text : String} {kind : TokenKind}
    (h : tokenize text = .ok [⟨kind, ⟨0, text.utf8ByteSize⟩⟩]) :
    Munch text.toList text.toList kind := by
  obtain ⟨front, word, back, htext, hspan, hmunch⟩ :=
    (cut_of_go h).exists_word _ (List.mem_singleton_self _)
  simp only [Span.mk.injEq, ← byteLength_toList, htext, byteLength_append] at hspan
  have hfront : front = [] := byteLength_eq_zero_iff.mp (by omega)
  have hback : back = [] := byteLength_eq_zero_iff.mp (by omega)
  simpa [htext, hfront, hback] using hmunch

theorem exists_pieces {text payload : String}
    (h : tokenize text = .ok [⟨.string payload, ⟨0, text.utf8ByteSize⟩⟩]) :
    ∃ pieces : List Piece, (∀ piece ∈ pieces, piece.IsValid) ∧
      text.toList = '"' :: (pieces.flatMap Piece.chars ++ ['"']) ∧
      payload.toList = pieces.flatMap Piece.payload := by
  have hmunch := munch_of_whole h
  generalize text.toList = word at hmunch
  cases hmunch with
  | word _ hdenotes =>
    cases hdenotes with
    | string pieces hpieces => exact ⟨pieces, hpieces, rfl, String.toList_ofList⟩

/--
A text that is one complete literal prints the way it was typed exactly if no line break or tab
stands in it as it is, and if a plain character behind an escaped backslash is one that a single
backslash would have made an escape of.
-/
theorem prints_verbatim_iff {text payload : String}
    (h : tokenize text = .ok [⟨.string payload, ⟨0, text.utf8ByteSize⟩⟩]) :
    ∃ inside, text.toList = '"' :: (inside ++ ['"']) ∧ parse text = .ok [.string payload] ∧
      ((Expr.string payload).print = text ↔
        (∀ c ∈ text.toList, c ∉ controls) ∧
        ∀ front c back, Piece.split inside = front ++ .escape '\\' :: .plain c :: back →
          c ∈ controlLetters) := by
  obtain ⟨pieces, hpieces, htext, hpayload⟩ := exists_pieces h
  refine ⟨pieces.flatMap Piece.chars, htext, ?_, ?_⟩
  . rw [parse_eq_ok_iff]
    refine ⟨_, h, ?_⟩
    rw [Parser.readAll_eq_ok_iff]
    exact ⟨[.elem (.string payload)], rfl, rfl⟩
  . have hprint : (Expr.string payload).print = text ↔
        Escape.escape (pieces.flatMap Piece.payload) = pieces.flatMap Piece.chars := by
      rw [← String.toList_inj, Expr.toList_print, Expr.chars, htext, hpayload]
      simp [Expr.Position.lead]
    have hcontrols : (∀ c ∈ text.toList, c ∉ controls) ↔
        ∀ c ∈ pieces.flatMap Piece.chars, c ∉ controls := by
      have hquote : '"' ∉ controls := by decide
      rw [htext, List.forall_mem_cons, List.forall_mem_append, List.forall_mem_singleton]
      simp only [hquote, not_false_eq_true, true_and, and_true]
    rw [hprint, hcontrols, Piece.split_chars hpieces, ← Piece.isChain_joins_iff]
    exact Escape.escape_payload_eq_iff hpieces

/--
An escape that is not known, an escaped backslash before a letter that needs it, and one at the end.
-/
theorem prints_verbatim_iff_escapes :
    let text := "\"\\q\\\\n\\\\\""
    let payload := "\\q\\n\\"
    tokenize text = .ok [⟨.string payload, ⟨0, text.utf8ByteSize⟩⟩] ∧
    (Expr.string payload).print = text ∧
    ∃ inside, text.toList = '"' :: (inside ++ ['"']) ∧ parse text = .ok [.string payload] ∧
      (∀ c ∈ text.toList, c ∉ controls) ∧
      ∀ front c back, Piece.split inside = front ++ .escape '\\' :: .plain c :: back →
        c ∈ controlLetters := by
  intro text payload
  have htext : tokenize text = .ok [⟨.string payload, ⟨0, text.utf8ByteSize⟩⟩] := by cbv
  have hprint : (Expr.string payload).print = text := by cbv
  obtain ⟨inside, hinside, hparse, hiff⟩ := prints_verbatim_iff htext
  exact ⟨htext, hprint, inside, hinside, hparse, hiff.mp hprint⟩

end ChatLisp
