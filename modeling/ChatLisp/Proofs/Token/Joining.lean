import Mathlib
import ChatLisp.Proofs.Token.Lexing

/-!
This module contains the tokens of texts that are joined. Where a text stands only moves the spans
of its tokens, and the tokens of a text that leaves no string open stay what they are when a text
follows that does not go on with its last symbol or integer.
-/

namespace ChatLisp

def Span.shift (offset : Nat) (s : Span) : Span :=
  ⟨s.start + offset, s.stop + offset⟩

def Token.shift (offset : Nat) (token : Token) : Token :=
  { token with span := token.span.shift offset }

@[simp]
theorem Token.kind_shift (offset : Nat) (token : Token) : (token.shift offset).kind = token.kind :=
  rfl

def IntegerOverflow.shift (offset : Nat) (e : IntegerOverflow) : IntegerOverflow :=
  { e with span := e.span.shift offset }

/--
The result of cutting a text that stands `offset` bytes further on.
-/
def shiftTokens (offset : Nat) :
    Except IntegerOverflow (List Token) → Except IntegerOverflow (List Token)
  | .error e => .error (e.shift offset)
  | .ok tokens => .ok (tokens.map (Token.shift offset))

theorem go_add (offset start : Nat) (cs : List Char) :
    tokenize.go (start + offset) cs = shiftTokens offset (tokenize.go start cs) := by
  fun_induction tokenize.go start cs with
  | case1 start =>
    rw [tokenize.go]
    rfl
  | case2 start c rest hc ih => rw [go_blank hc, ← ih, Nat.add_right_comm]
  | case3 start c rest hc cut span hkind =>
    have hfirst : Lexeme.first c rest = (cut.1, cut.2) := rfl
    rw [go_overflow hc hfirst hkind, Nat.add_right_comm]
    rfl
  | case4 start c rest hc cut span kind hkind e hgo ih =>
    have hfirst : Lexeme.first c rest = (cut.1, cut.2) := rfl
    rw [hgo] at ih
    rw [go_lexeme hc hfirst hkind, Nat.add_right_comm, ih]
    rfl
  | case5 start c rest hc cut span kind hkind tokens hgo =>
    rename_i ih
    have hfirst : Lexeme.first c rest = (cut.1, cut.2) := rfl
    rw [hgo] at ih
    rw [go_lexeme hc hfirst hkind, Nat.add_right_comm, ih]
    rfl

namespace Lexeme

theorem scanString_append {escaped : Bool} {text : List Char}
    (h : (scanString escaped text).closed ∨ (scanString escaped text).rest ≠ [])
    (more : List Char) :
    scanString escaped (text ++ more) =
      { scanString escaped text with rest := (scanString escaped text).rest ++ more } := by
  fun_induction scanString escaped text with
  | case1 => simp at h
  -- Before a newline the literal has broken off already.
  | case2 rest => rfl
  | case3 c rest hnewline ih => simp [scanString, hnewline, ih h, StringScan.cons]
  | case4 escaped rest hescaped => simp [scanString, hescaped]
  | case5 escaped c rest hescaped hquote ih =>
    simp [scanString, hescaped, hquote, ih h, StringScan.cons]

end Lexeme

/--
Whether the token is a string literal without its end.
-/
def TokenKind.isOpen : TokenKind → Bool
  | invalid text => text.toList.head? = some '"'
  | _ => false

section

variable {p : Char → Bool} {cs more : List Char}

theorem Breaks.not_of_head (h : Breaks more) (hp : ∀ c, p c → isSymbolPart c) :
    ∀ c ∈ more.head?, ¬ p c := by
  intro c hc hpc
  have hpart := h c hc
  simp [hp c hpc] at hpart

theorem takeWhile_append_of_head (hmore : cs.dropWhile p = [] → ∀ c ∈ more.head?, ¬ p c) :
    (cs ++ more).takeWhile p = cs.takeWhile p := by
  induction cs with
  | nil =>
    cases more with
    | nil => rfl
    | cons c more => exact List.takeWhile_cons_of_neg (hmore rfl c rfl)
  | cons c cs ih =>
    rw [List.cons_append, List.takeWhile_cons, List.takeWhile_cons]
    split
    . next hc =>
      rw [List.dropWhile_cons_of_pos hc] at hmore
      rw [ih hmore]
    . rfl

theorem dropWhile_append_of_head (hmore : cs.dropWhile p = [] → ∀ c ∈ more.head?, ¬ p c) :
    (cs ++ more).dropWhile p = cs.dropWhile p ++ more := by
  have happend : (cs ++ more).takeWhile p ++ (cs ++ more).dropWhile p =
      (cs ++ more).takeWhile p ++ (cs.dropWhile p ++ more) := by
    rw [List.takeWhile_append_dropWhile, takeWhile_append_of_head hmore,
      ← List.append_assoc, List.takeWhile_append_dropWhile]
  exact List.append_cancel_left happend

end

theorem Lexeme.first_append {c : Char} {rest left more : List Char} {lexeme : Lexeme}
    (hmore : left = [] → Breaks more) (hfirst : first c rest = (lexeme, left))
    (hopen : ∀ kind, lexeme.kind? = some kind → kind.isOpen → left ≠ []) :
    first c (rest ++ more) = (lexeme, left ++ more) := by
  revert hfirst
  -- Only symbols, numbers and strings might go on into what follows.
  fun_cases first c rest with
  | case5 hleft hright hdot hquote hstart =>
    rintro ⟨⟩
    rw [first, if_neg hleft, if_neg hright, if_neg hdot, if_neg hquote, if_pos hstart,
      takeWhile_append_of_head fun hnil => (hmore hnil).not_of_head fun _ => id,
      dropWhile_append_of_head fun hnil => (hmore hnil).not_of_head fun _ => id]
  | case6 hleft hright hdot hquote hstart hdigit =>
    rintro ⟨⟩
    rw [first, if_neg hleft, if_neg hright, if_neg hdot, if_neg hquote, if_neg hstart,
      if_pos hdigit,
      takeWhile_append_of_head fun hnil =>
        (hmore hnil).not_of_head fun _ => isSymbolPart_of_isDigit,
      dropWhile_append_of_head fun hnil =>
        (hmore hnil).not_of_head fun _ => isSymbolPart_of_isDigit]
  | case7 hleft hright hdot hquote hstart hdigit hstring scan =>
    rintro ⟨⟩
    rw [first, if_neg hleft, if_neg hright, if_neg hdot, if_neg hquote, if_neg hstart,
      if_neg hdigit, if_pos hstring, scanString_append]
    cases hclosed : scan.closed with
    | true => exact .inl rfl
    | false =>
      rw [hclosed] at hopen
      exact .inr (hopen _ rfl (by simp [TokenKind.isOpen]))
  | _ =>
    rintro ⟨⟩
    simp_all [first]

theorem Cut.go_append {start : Nat} {cs more : List Char} {tokens : List Token}
    (h : Cut start cs tokens) (hmore : Breaks more)
    (hclosed : ∀ token ∈ tokens, ¬ token.kind.isOpen) :
    tokenize.go start (cs ++ more) =
      (tokenize.go (start + byteLength cs) more).map (tokens ++ ·) := by
  induction h with
  | nil start => exact (congrFun Except.map_id _).symm
  | blank hc _ ih =>
    rw [List.cons_append, go_blank hc, ih hclosed, byteLength_cons, Nat.add_assoc]
  | @token start c rest left lexeme kind tokens hc hfirst hkind _ ih =>
    obtain ⟨hkindClosed, htokens⟩ := List.forall_mem_cons.mp hclosed
    have hopen : ∀ kind, lexeme.kind? = some kind → kind.isOpen → left ≠ [] := by
      intro kind' hkind' hopen
      cases hkind.symm.trans hkind'
      exact absurd hopen hkindClosed
    rw [List.cons_append, go_lexeme hc (Lexeme.first_append (fun _ => hmore) hfirst hopen) hkind,
      ih htokens, ← Lexeme.chars_append_of_first hfirst, byteLength_append, Nat.add_assoc]
    cases tokenize.go (start + (byteLength lexeme.chars + byteLength left)) more with
    | error e => rfl
    | ok later => rfl

theorem go_blanks {blanks : List Char} (hblanks : ∀ c ∈ blanks, isBlank c) (start : Nat)
    (cs : List Char) :
    tokenize.go start (blanks ++ cs) = tokenize.go (start + byteLength blanks) cs := by
  induction blanks generalizing start with
  | nil => rfl
  | cons c blanks ih =>
    obtain ⟨hc, hblanks⟩ := List.forall_mem_cons.mp hblanks
    rw [List.cons_append, go_blank hc, ih hblanks, byteLength_cons, Nat.add_assoc]

theorem breaks_of_isBlank {c : Char} (hc : isBlank c) (cs : List Char) : Breaks (c :: cs) := by
  rintro _ ⟨⟩
  cases hpart : isSymbolPart c with
  | false => rfl
  | true =>
    rw [isBlank_eq_false_of_isSymbolPart hpart] at hc
    cases hc

/--
Two texts with blanks between them are cut into the tokens of the first one and those of the second
one, further on by the length of what stands before it.
-/
theorem tokenize_join {a w b : String} {tokens : List Token} (ha : tokenize a = .ok tokens)
    (hclosed : ∀ token ∈ tokens, ¬ token.kind.isOpen) (hw : w ≠ "")
    (hblank : ∀ c ∈ w.toList, isBlank c) :
    tokenize (a ++ w ++ b) =
      (shiftTokens (byteLength (a ++ w).toList) (tokenize b)).map (tokens ++ ·) := by
  have hbreaks : Breaks (w.toList ++ b.toList) := by
    cases hcs : w.toList with
    | nil => exact absurd (String.toList_eq_nil_iff.mp hcs) hw
    | cons c cs =>
      rw [hcs] at hblank
      exact breaks_of_isBlank (hblank c List.mem_cons_self) _
  unfold tokenize at ha ⊢
  rw [String.toList_append, String.toList_append, List.append_assoc,
    (cut_of_go ha).go_append hbreaks hclosed, go_blanks hblank, Nat.add_assoc,
    ← byteLength_append, go_add]

end ChatLisp
