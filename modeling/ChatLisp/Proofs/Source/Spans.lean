import ChatLisp.Proofs.Parser.Progress
import ChatLisp.Proofs.Token.Munch

/-!
This module contains the spans of errors in the text. Each of them runs from one boundary between
characters to another: those of the tokens do, and the parser only takes the spans of tokens and
covers of such spans.
-/

namespace ChatLisp

/--
The byte offset is one at which a character begins, or the end of the text.
-/
def IsBoundary (cs : List Char) (offset : Nat) : Prop :=
  ∃ front back, cs = front ++ back ∧ offset = byteLength front

/--
The span is a stretch of the text.
-/
structure Span.IsOf (cs : List Char) (s : Span) : Prop where
  start : IsBoundary cs s.start
  stop : IsBoundary cs s.stop
  le : s.start ≤ s.stop

namespace Span

variable {cs : List Char}

theorem isOf_append (front word back : List Char) :
    (⟨byteLength front, byteLength front + byteLength word⟩ : Span).IsOf
      (front ++ word ++ back) := by
  constructor
  . exact ⟨front, word ++ back, by simp, rfl⟩
  . exact ⟨front ++ word, back, rfl, by simp⟩
  . exact Nat.le_add_right _ _

theorem IsOf.merge {a b : Span} (ha : a.IsOf cs) (hb : b.IsOf cs) : (a.merge b).IsOf cs := by
  constructor
  . obtain h | h := Nat.le_total a.start b.start
    . simpa [Span.merge, h] using ha.start
    . simpa [Span.merge, h] using hb.start
  . obtain h | h := Nat.le_total a.stop b.stop
    . simpa [Span.merge, h] using hb.stop
    . simpa [Span.merge, h] using ha.stop
  . have hle := ha.le
    simp only [Span.merge]
    omega

theorem IsOf.exists_word {s : Span} (h : s.IsOf cs) :
    ∃ front word back, cs = front ++ word ++ back ∧
      s = ⟨byteLength front, byteLength front + byteLength word⟩ := by
  obtain ⟨⟨front, rest, hfront, hstart⟩, ⟨taken, back, htaken, hstop⟩, hle⟩ := h
  obtain ⟨start, stop⟩ := s
  dsimp only at hstart hstop hle
  rw [hfront] at htaken
  obtain ⟨word, rfl, rfl⟩ | ⟨beyond, rfl, rfl⟩ := List.append_eq_append_iff.mp htaken
  . refine ⟨front, word, back, by simp [hfront], ?_⟩
    rw [hstart, hstop, byteLength_append]
  . -- The end cannot lie before the start, so nothing is beyond it.
    rw [byteLength_append] at hstart
    have hnil : beyond = [] := byteLength_eq_zero_iff.mp (by omega)
    subst hnil
    refine ⟨taken, [], rest, by simp [hfront], ?_⟩
    simp [hstart, hstop]

end Span

theorem exists_word_of_go_error {start : Nat} {cs : List Char} {e : IntegerOverflow}
    (h : tokenize.go start cs = .error e) :
    ∃ front word back, cs = front ++ word ++ back ∧
      e.span = ⟨start + byteLength front, start + byteLength front + byteLength word⟩ := by
  fun_induction tokenize.go start cs with
  | case1 => cases h
  | case2 start c rest hc ih =>
    obtain ⟨front, word, back, rfl, hspan⟩ := ih h
    exact ⟨c :: front, word, back, rfl, by simp [hspan, Nat.add_assoc]⟩
  | case3 start c rest hc cut span hkind =>
    cases h
    exact ⟨[], cut.1.chars, cut.2, by simp [cut], rfl⟩
  | case4 start c rest hc cut span kind hkind e' hgo ih =>
    cases h
    obtain ⟨front, word, back, hrest, hspan⟩ := ih hgo
    refine ⟨cut.1.chars ++ front, word, back, ?_, ?_⟩
    . rw [← Lexeme.chars_first_append c rest, List.append_assoc, List.append_assoc, hrest,
        List.append_assoc]
    . simp [hspan, span, Nat.add_assoc]
  | case5 => cases h

theorem isOf_of_tokenize_error {text : String} {e : IntegerOverflow}
    (h : tokenize text = .error e) :
    e.span.IsOf text.toList := by
  obtain ⟨front, word, back, htext, hspan⟩ := exists_word_of_go_error h
  rw [htext, hspan, Nat.zero_add]
  exact Span.isOf_append front word back

theorem isOf_of_tokenize {text : String} {tokens : List Token} (h : tokenize text = .ok tokens) :
    ∀ token ∈ tokens, token.span.IsOf text.toList := by
  intro token htoken
  obtain ⟨front, word, back, htext, hspan, _⟩ := (cut_of_go h).exists_word token htoken
  rw [htext, hspan, Nat.zero_add]
  exact Span.isOf_append front word back

/--
The span that an error of the parser names. An end that comes too early has none.
-/
def ParseError.span? : ParseError → Option Span
  | unexpectedToken found => some found.span
  | invalidDot span => some span
  | emptyQuote span => some span
  | unexpectedEnd _ => none
  | emptyInput => none

namespace Parser

/--
The spans that the construct remembers are known to be of some kind.
-/
def Pending.Spans (P : Span → Prop) : Pending → Prop
  | list _ => True
  | tail _ dot => P dot
  | quotes _ first last => P first ∧ P last

def State.Spans (P : Span → Prop) : State → Prop
  | reading pending => ∀ construct ∈ pending, construct.Spans P
  | closing _ _ dot pending => P dot ∧ ∀ construct ∈ pending, construct.Spans P

def Step.Spans (P : Span → Prop) : Step → Prop
  | more state => state.Spans P
  | done _ => True
  | fail error => ∀ span ∈ error.span?, P span

section

variable {P : Span → Prop} {span : Span} {pending : List Pending}

theorem spans_complete (h : ∀ construct ∈ pending, construct.Spans P) (e : Expr) :
    (complete e pending).Spans P := by
  fun_induction complete e pending with
  | case1 => trivial
  | case2 e items pending => exact List.forall_mem_cons.mpr ⟨trivial, (List.forall_mem_cons.mp h).2⟩
  | case3 e items dot pending => exact List.forall_mem_cons.mp h
  | case4 e extra first last pending ih => exact ih (List.forall_mem_cons.mp h).2

theorem spans_readQuote (h : ∀ construct ∈ pending, construct.Spans P) (hspan : P span) :
    (readQuote span pending).Spans P := by
  unfold readQuote
  split
  . obtain ⟨⟨hfirst, _⟩, hmore⟩ := List.forall_mem_cons.mp h
    exact List.forall_mem_cons.mpr ⟨⟨hfirst, hspan⟩, hmore⟩
  . exact List.forall_mem_cons.mpr ⟨⟨hspan, hspan⟩, h⟩

variable (hmerge : ∀ {a b}, P a → P b → P (a.merge b))

include hmerge

theorem spans_readDot (h : ∀ construct ∈ pending, construct.Spans P) (hspan : P span) :
    (readDot span pending).Spans P := by
  unfold readDot
  split
  . rintro _ ⟨⟩
    exact hspan
  . exact List.forall_mem_cons.mpr ⟨hspan, (List.forall_mem_cons.mp h).2⟩
  . rintro _ ⟨⟩
    exact hmerge (List.forall_mem_cons.mp h).1 hspan
  . exact spans_complete h .dot

theorem spans_readRightParen (h : ∀ construct ∈ pending, construct.Spans P) (hspan : P span) :
    (readRightParen span pending).Spans P := by
  unfold readRightParen
  split
  . exact spans_complete (List.forall_mem_cons.mp h).2 _
  . rintro _ ⟨⟩
    exact hmerge (List.forall_mem_cons.mp h).1 hspan
  . rintro _ ⟨⟩
    exact hspan

theorem State.Spans.step {state : State} (h : state.Spans P) {token : Token}
    (htoken : P token.span) :
    (state.step token).Spans P := by
  unfold State.step
  cases state with
  | reading pending =>
    cases token.kind with
    | leftParen => exact List.forall_mem_cons.mpr ⟨trivial, h⟩
    | rightParen => exact spans_readRightParen hmerge h htoken
    | dot => exact spans_readDot hmerge h htoken
    | quote => exact spans_readQuote h htoken
    | symbol name => exact spans_complete h _
    | integer value => exact spans_complete h _
    | string payload => exact spans_complete h _
    | invalid text =>
      rintro _ ⟨⟩
      exact htoken
  | closing items tail dot pending =>
    cases token.kind with
    | rightParen => exact spans_complete h.2 _
    | _ =>
      rintro _ ⟨⟩
      exact hmerge h.1 htoken

theorem State.Spans.endError {state : State} (h : state.Spans P) :
    ∀ span ∈ state.endError.span?, P span := by
  unfold State.endError
  split
  . nofun
  . nofun
  . nofun
  . rintro _ ⟨⟩
    obtain ⟨hfirst, hlast⟩ := (List.forall_mem_cons.mp h).1
    exact hmerge hfirst hlast
  . nofun

theorem State.Spans.run {state : State} (h : state.Spans P) {tokens : List Token}
    (htokens : ∀ token ∈ tokens, P token.span) {e : ParseError}
    (he : (state.run tokens).outcome = .error e) :
    ∀ span ∈ e.span?, P span := by
  induction tokens generalizing state with
  | nil =>
    cases he
    exact h.endError hmerge
  | cons token tokens ih =>
    obtain ⟨htoken, htokens⟩ := List.forall_mem_cons.mp htokens
    have hstep := h.step hmerge htoken
    rw [State.run_cons] at he
    cases hs : state.step token with
    | more next =>
      rw [hs] at hstep he
      exact ih hstep htokens he
    | done expr =>
      rw [hs] at he
      cases he
    | fail error =>
      rw [hs] at hstep he
      cases he
      exact hstep

theorem spans_of_readAll_error {tokens : List Token} (htokens : ∀ token ∈ tokens, P token.span)
    {e : ParseError} (h : readAll tokens = .error e) :
    ∀ span ∈ e.span?, P span := by
  fun_induction readAll tokens with
  | case1 => cases h
  | case2 token tokens reading e he =>
    cases h
    have hstart : (State.reading []).Spans P := List.forall_mem_nil _
    exact hstart.run hmerge htokens he
  | case3 token tokens reading e he error hrest ih =>
    cases h
    apply ih _ hrest
    obtain ⟨taken, htaken⟩ := State.exists_append_rest_run (.reading []) (token :: tokens)
    intro other hother
    apply htokens
    rw [htaken]
    exact List.mem_append_right taken hother
  | case4 => cases h

end

end Parser

theorem isOf_of_readAll_error {text : String} {tokens : List Token}
    (htokens : tokenize text = .ok tokens) {e : ParseError} (h : Parser.readAll tokens = .error e) :
    ∀ span ∈ e.span?, span.IsOf text.toList :=
  Parser.spans_of_readAll_error Span.IsOf.merge (isOf_of_tokenize htokens) h

end ChatLisp
