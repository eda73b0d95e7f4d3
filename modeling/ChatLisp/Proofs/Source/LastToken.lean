import ChatLisp.Proofs.Source.Spans

/-!
This module contains where the errors of the parser point. The last token that was read is the one
that cannot stand where it stands, and a span begins at a token that was read before it: at the dot
that a list is malformed behind, or at the first of the quotes that nothing follows. Earlier calls
that have failed half-way do not matter.
-/

namespace ChatLisp

/--
Neither end of the first span comes behind that of the second.
-/
def Span.Precedes (a b : Span) : Prop :=
  a.start ≤ b.start ∧ a.stop ≤ b.stop

/--
The quotes that a run of tokens ends with.
-/
def lastQuotes (tokens : List Token) : List Token :=
  tokens.rtakeWhile fun token => token.kind = .quote

theorem lastQuotes_concat_quote (tokens : List Token) {token : Token} (h : token.kind = .quote) :
    lastQuotes (tokens ++ [token]) = lastQuotes tokens ++ [token] :=
  List.rtakeWhile_concat_pos _ _ _ (by simp [h])

theorem lastQuotes_concat_of_ne {token : Token} (h : token.kind ≠ .quote) (tokens : List Token) :
    lastQuotes (tokens ++ [token]) = [] :=
  List.rtakeWhile_concat_neg _ _ _ (by simp [h])

/--
How an error points at the tokens that were taken up to it. All spans in it end with the last one.
-/
def ParseError.PointsAt (taken rest : List Token) : ParseError → Prop
  | unexpectedToken found => taken.getLast? = some found
  | invalidDot span =>
    ∃ dot ∈ taken, dot.kind = .dot ∧
      ∃ last ∈ taken.getLast?, span = ⟨dot.span.start, last.span.stop⟩
  | emptyQuote span =>
    rest = [] ∧ ∃ first ∈ (lastQuotes taken).head?, ∃ last ∈ (lastQuotes taken).getLast?,
      span = ⟨first.span.start, last.span.stop⟩
  | unexpectedEnd _ => rest = []
  | emptyInput => False

namespace Parser

/--
The span is that of a dot among the tokens.
-/
def IsDotOf (taken : List Token) (span : Span) : Prop :=
  ∃ dot ∈ taken, dot.kind = .dot ∧ dot.span = span

/--
The dots that are remembered are among the tokens.
-/
def Pending.DotsOf (taken : List Token) : Pending → Prop
  | list _ => True
  | tail _ dot => IsDotOf taken dot
  | quotes _ _ _ => True

/--
The tokens end with quotes if a run of quotes is the innermost construct, which then remembers the
first and the last of them.
-/
def QuotesOf (run : List Token) : List Pending → Prop
  | .quotes _ first last :: _ =>
    (∃ token ∈ run.head?, token.span = first) ∧ (∃ token ∈ run.getLast?, token.span = last) ∧
      first.Precedes last
  | _ => run = []

/--
All spans that the state remembers are those of the right tokens among those that were taken.
-/
def State.SpansOf (taken : List Token) : State → Prop
  | reading pending =>
    (∀ construct ∈ pending, construct.DotsOf taken) ∧ QuotesOf (lastQuotes taken) pending
  | closing _ _ dot pending =>
    IsDotOf taken dot ∧ ∀ construct ∈ pending, construct.DotsOf taken

def Step.SpansOf (taken : List Token) : Step → Prop
  | more state => state.SpansOf taken
  | done _ => True
  | fail error => ∀ rest, error.PointsAt taken rest

variable {taken : List Token} {token : Token} {pending : List Pending}

theorem Pending.DotsOf.concat {construct : Pending} (h : construct.DotsOf taken) (token : Token) :
    construct.DotsOf (taken ++ [token]) := by
  cases construct with
  | tail items dot =>
    obtain ⟨dot, hmem, hdot⟩ := h
    exact ⟨dot, List.mem_append_left _ hmem, hdot⟩
  | _ => trivial

theorem dotsOf_concat (h : ∀ construct ∈ pending, construct.DotsOf taken) (token : Token) :
    ∀ construct ∈ pending, construct.DotsOf (taken ++ [token]) :=
  fun construct hconstruct => (h construct hconstruct).concat token

theorem pointsAt_invalidDot {dot : Span} (hdot : IsDotOf taken dot)
    (horder : ∀ earlier ∈ taken, earlier.span.Precedes token.span) (rest : List Token) :
    (ParseError.invalidDot (dot.merge token.span)).PointsAt (taken ++ [token]) rest := by
  obtain ⟨dot, hmem, hkind, rfl⟩ := hdot
  obtain ⟨hstart, hstop⟩ := horder dot hmem
  rw [Span.merge_eq_of_le hstart hstop]
  exact ⟨dot, List.mem_append_left _ hmem, hkind, token, List.getLast?_concat, rfl⟩

theorem spansOf_complete (h : ∀ construct ∈ pending, construct.DotsOf taken)
    (hquotes : lastQuotes taken = []) (e : Expr) :
    (complete e pending).SpansOf taken := by
  fun_induction complete e pending with
  | case1 => trivial
  | case2 e items pending =>
    exact ⟨List.forall_mem_cons.mpr ⟨trivial, (List.forall_mem_cons.mp h).2⟩, hquotes⟩
  | case3 e items dot pending => exact List.forall_mem_cons.mp h
  | case4 e extra first last pending ih => exact ih (List.forall_mem_cons.mp h).2

theorem spansOf_readQuote (h : (State.reading pending).SpansOf taken)
    (hkind : token.kind = .quote)
    (horder : ∀ earlier ∈ taken, earlier.span.Precedes token.span) :
    (readQuote token.span pending).SpansOf (taken ++ [token]) := by
  obtain ⟨hdots, hquotes⟩ := h
  have hrun := lastQuotes_concat_quote taken hkind
  have hlast : (lastQuotes taken ++ [token]).getLast? = some token := List.getLast?_concat
  unfold readQuote
  split
  . next extra first last pending =>
    obtain ⟨⟨earliest, hearliest, rfl⟩, _, _⟩ := hquotes
    have hmem : earliest ∈ taken :=
      (List.rtakeWhile_suffix _ _).subset (List.mem_of_mem_head? hearliest)
    refine ⟨?_, ?_⟩
    . rw [List.forall_mem_cons] at hdots ⊢
      exact ⟨trivial, dotsOf_concat hdots.2 token⟩
    . rw [hrun]
      refine ⟨⟨earliest, ?_, rfl⟩, ⟨token, hlast, rfl⟩, horder earliest hmem⟩
      rw [List.head?_append, hearliest]
      rfl
  . next hinnermost =>
    have hnil : lastQuotes taken = [] := by
      unfold QuotesOf at hquotes
      split at hquotes
      . exact absurd rfl (hinnermost _ _ _ _)
      . exact hquotes
    refine ⟨List.forall_mem_cons.mpr ⟨trivial, dotsOf_concat hdots token⟩, ?_⟩
    rw [hrun, hnil]
    exact ⟨⟨token, rfl, rfl⟩, ⟨token, rfl, rfl⟩, Nat.le_refl _, Nat.le_refl _⟩

theorem spansOf_readDot (h : ∀ construct ∈ pending, construct.DotsOf taken)
    (hkind : token.kind = .dot)
    (horder : ∀ earlier ∈ taken, earlier.span.Precedes token.span) :
    (readDot token.span pending).SpansOf (taken ++ [token]) := by
  have hne : token.kind ≠ .quote := by simp [hkind]
  have hquotes := lastQuotes_concat_of_ne hne taken
  have hmem : token ∈ taken ++ [token] := List.mem_append_right _ List.mem_cons_self
  have hconcat := dotsOf_concat h token
  unfold readDot
  split
  . intro rest
    exact ⟨token, hmem, hkind, token, List.getLast?_concat, rfl⟩
  . exact ⟨List.forall_mem_cons.mpr
      ⟨⟨token, hmem, hkind, rfl⟩, (List.forall_mem_cons.mp hconcat).2⟩, hquotes⟩
  . exact pointsAt_invalidDot (List.forall_mem_cons.mp h).1 horder
  . exact spansOf_complete hconcat hquotes .dot

theorem spansOf_readRightParen (h : ∀ construct ∈ pending, construct.DotsOf taken)
    (hkind : token.kind = .rightParen)
    (horder : ∀ earlier ∈ taken, earlier.span.Precedes token.span) :
    (readRightParen token.span pending).SpansOf (taken ++ [token]) := by
  have hne : token.kind ≠ .quote := by simp [hkind]
  have hquotes := lastQuotes_concat_of_ne hne taken
  unfold readRightParen
  split
  . exact spansOf_complete (List.forall_mem_cons.mp (dotsOf_concat h token)).2 hquotes _
  . exact pointsAt_invalidDot (List.forall_mem_cons.mp h).1 horder
  . intro rest
    rw [← hkind]
    exact List.getLast?_concat

theorem State.SpansOf.step {state : State} (h : state.SpansOf taken)
    (horder : ∀ earlier ∈ taken, earlier.span.Precedes token.span) :
    (state.step token).SpansOf (taken ++ [token]) := by
  have hquotes (hkind : token.kind ≠ .quote) := lastQuotes_concat_of_ne hkind taken
  unfold State.step
  cases state with
  | reading pending =>
    have hdots := dotsOf_concat h.1 token
    cases hkind : token.kind with
    | leftParen =>
      exact ⟨List.forall_mem_cons.mpr ⟨trivial, hdots⟩, hquotes (by simp [hkind])⟩
    | rightParen => exact spansOf_readRightParen h.1 hkind horder
    | dot => exact spansOf_readDot h.1 hkind horder
    | quote => exact spansOf_readQuote h hkind horder
    | invalid text =>
      intro rest
      exact List.getLast?_concat
    | _ => exact spansOf_complete hdots (hquotes (by simp [hkind])) _
  | closing items tail dot pending =>
    cases hkind : token.kind with
    | rightParen => exact spansOf_complete (dotsOf_concat h.2 token) (hquotes (by simp [hkind])) _
    | _ => exact pointsAt_invalidDot h.1 horder

theorem State.SpansOf.endError {state : State} (h : state.SpansOf taken) :
    state.endError.PointsAt taken [] := by
  unfold State.endError
  split
  . rfl
  . rfl
  . rfl
  . obtain ⟨_, ⟨first, hfirst, rfl⟩, ⟨last, hlast, rfl⟩, hstart, hstop⟩ := h
    rw [Span.merge_eq_of_le hstart hstop]
    exact ⟨rfl, first, hfirst, last, hlast, rfl⟩
  . rfl

/--
An error points at the tokens that were taken before the run and those that the run has taken.
-/
theorem State.SpansOf.run {state : State} (h : state.SpansOf taken) {tokens rest : List Token}
    (horder : (taken ++ tokens).Pairwise fun token later => token.span.Precedes later.span)
    {e : ParseError} (hrun : state.run tokens = ⟨.error e, rest⟩) :
    ∃ more, tokens = more ++ rest ∧ e.PointsAt (taken ++ more) rest := by
  induction tokens generalizing state taken with
  | nil =>
    cases hrun
    refine ⟨[], rfl, ?_⟩
    rw [List.append_nil]
    exact h.endError
  | cons token tokens ih =>
    have hearlier : ∀ earlier ∈ taken, earlier.span.Precedes token.span := by
      intro earlier hmem
      exact (List.pairwise_append.mp horder).2.2 earlier hmem token List.mem_cons_self
    have hstep := h.step hearlier
    rw [State.run_cons] at hrun
    cases hs : state.step token with
    | more next =>
      rw [hs] at hstep hrun
      rw [List.append_cons] at horder
      obtain ⟨more, rfl, hpoints⟩ := ih hstep horder hrun
      refine ⟨token :: more, rfl, ?_⟩
      rwa [List.append_cons]
    | done expr =>
      rw [hs] at hrun
      cases hrun
    | fail error =>
      rw [hs] at hstep hrun
      cases hrun
      exact ⟨[token], rfl, hstep rest⟩

theorem pointsAt_of_readExpr {left rest : List Token}
    (horder : left.Pairwise fun token later => token.span.Precedes later.span) {e : ParseError}
    (hread : readExpr left = ⟨.error e, rest⟩) :
    ∃ taken, left = taken ++ rest ∧ e.PointsAt taken rest := by
  have hstart : (State.reading []).SpansOf [] := ⟨List.forall_mem_nil _, rfl⟩
  exact hstart.run horder hread

theorem suffix_iterate (tokens : List Token) (calls : Nat) :
    (fun left => (readExpr left).rest)^[calls] tokens <:+ tokens := by
  induction calls with
  | zero => exact List.suffix_rfl
  | succ calls ih =>
    rw [Function.iterate_succ_apply']
    obtain ⟨taken, htaken, _⟩ := exists_taken ((fun left => (readExpr left).rest)^[calls] tokens)
    exact List.IsSuffix.trans ⟨taken, htaken.symm⟩ ih

end Parser

theorem precedes_of_tokenize {text : String} {tokens : List Token}
    (h : tokenize text = .ok tokens) :
    tokens.Pairwise fun token later => token.span.Precedes later.span := by
  have hspans := isOf_of_tokenize h
  apply (cut_of_go h).pairwise.imp_of_mem
  intro token later htoken hlater hle
  constructor
  . exact (hspans token htoken).le.trans hle
  . exact hle.trans (hspans later hlater).le

theorem start_lt_stop_of_tokenize {text : String} {tokens : List Token}
    (h : tokenize text = .ok tokens) :
    ∀ token ∈ tokens, token.span.start < token.span.stop := by
  intro token htoken
  obtain ⟨front, word, back, _, hspan, hmunch⟩ := (cut_of_go h).exists_word token htoken
  have hpos : byteLength word ≠ 0 := by
    rw [Ne, byteLength_eq_zero_iff]
    exact hmunch.word_ne_nil
  rw [hspan]
  exact Nat.lt_add_of_pos_right (Nat.pos_of_ne_zero hpos)

theorem Span.start_lt_stop_merge {a b : Span} (ha : a.start < a.stop) :
    (a.merge b).start < (a.merge b).stop :=
  (Nat.min_le_left _ _).trans_lt (ha.trans_le (Nat.le_max_left _ _))

namespace Parser

/--
However many calls were made before, and whether they failed or not: a call that fails points at the
tokens that it has taken itself, and at a stretch of the text that is not empty.
-/
theorem error_pointsAt {text : String} {tokens left rest : List Token} {calls : Nat}
    {e : ParseError} (htokens : tokenize text = .ok tokens)
    (hleft : (fun left => (readExpr left).rest)^[calls] tokens = left)
    (hread : readExpr left = ⟨.error e, rest⟩) :
    (∃ taken, left = taken ++ rest ∧ e.PointsAt taken rest) ∧
      ∀ span ∈ e.span?, span.start < span.stop ∧ span.IsOf text.toList := by
  have hsuffix : left <:+ tokens := hleft ▸ suffix_iterate tokens calls
  constructor
  . exact pointsAt_of_readExpr ((precedes_of_tokenize htokens).sublist hsuffix.sublist) hread
  . have hspans : ∀ token ∈ left, token.span.start < token.span.stop ∧
        token.span.IsOf text.toList := by
      intro token htoken
      have hmem := hsuffix.subset htoken
      exact ⟨start_lt_stop_of_tokenize htokens token hmem, isOf_of_tokenize htokens token hmem⟩
    have hstart : (State.reading []).Spans fun span =>
        span.start < span.stop ∧ span.IsOf text.toList := List.forall_mem_nil _
    apply hstart.run _ hspans (congrArg Reading.outcome hread)
    intro a b ha hb
    exact ⟨Span.start_lt_stop_merge ha.1, ha.2.merge hb.2⟩

/--
A list that is malformed at a quote, and two quotes behind it that belong to the next call.
-/
theorem error_pointsAt_quotes :
    let text := "(\"é\" . 1 '''"
    let left : List Token := [⟨.quote, ⟨11, 12⟩⟩, ⟨.quote, ⟨12, 13⟩⟩]
    let tokens : List Token := [⟨.leftParen, ⟨0, 1⟩⟩, ⟨.string "é", ⟨1, 5⟩⟩, ⟨.dot, ⟨6, 7⟩⟩,
      ⟨.integer 1, ⟨8, 9⟩⟩, ⟨.quote, ⟨10, 11⟩⟩] ++ left
    tokenize text = .ok tokens ∧
    (fun left => (readExpr left).rest)^[1] tokens = left ∧
    readExpr tokens = ⟨.error (.invalidDot ⟨6, 11⟩), left⟩ ∧
    readExpr left = ⟨.error (.emptyQuote ⟨11, 13⟩), []⟩ ∧
    (∃ taken, tokens = taken ++ left ∧ (ParseError.invalidDot ⟨6, 11⟩).PointsAt taken left) ∧
    (∃ taken, left = taken ++ [] ∧ (ParseError.emptyQuote ⟨11, 13⟩).PointsAt taken []) ∧
    (⟨6, 11⟩ : Span).IsOf text.toList ∧ (⟨11, 13⟩ : Span).IsOf text.toList := by
  intro text left tokens
  have htokens : tokenize text = .ok tokens := by cbv
  have hfirst : readExpr tokens = ⟨.error (.invalidDot ⟨6, 11⟩), left⟩ := rfl
  have hsecond : readExpr left = ⟨.error (.emptyQuote ⟨11, 13⟩), []⟩ := rfl
  have hleft : (fun left => (readExpr left).rest)^[1] tokens = left := rfl
  have hnone : (fun left => (readExpr left).rest)^[0] tokens = tokens := rfl
  obtain ⟨hdot, hdotSpan⟩ := error_pointsAt htokens hnone hfirst
  obtain ⟨hquotes, hquotesSpan⟩ := error_pointsAt htokens hleft hsecond
  exact ⟨htokens, hleft, hfirst, hsecond, hdot, hquotes, (hdotSpan _ rfl).2, (hquotesSpan _ rfl).2⟩

end Parser

end ChatLisp
