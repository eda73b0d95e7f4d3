import ChatLisp.Parser.Basic
import ChatLisp.Proofs.Parser.Grammar

/-!
This module contains the language of the parser, which is that of the grammar. Completeness follows
the derivations: reading what a derivation spells hands its expression to whatever is open.
Soundness follows the tokens: what is open after some of them is what derivations of these tokens
have left open.
-/

namespace ChatLisp

open Grammar

namespace Parser

def Step.run (step : Step) (tokens : List Token) : Reading :=
  match step with
  | .more state => state.run tokens
  | .done expr => ⟨.ok expr, tokens⟩
  | .fail error => ⟨.error error, tokens⟩

@[simp]
theorem Step.run_more (state : State) (tokens : List Token) :
    (Step.more state).run tokens = state.run tokens :=
  rfl

theorem State.run_cons (state : State) (token : Token) (tokens : List Token) :
    state.run (token :: tokens) = (state.step token).run tokens :=
  rfl

/--
Outside of lists, where a dot is an expression.
-/
inductive TakesDot : List Pending → Prop where
  | nil : TakesDot []
  | quotes (extra : Nat) (first last : Span) (pending : List Pending) :
    TakesDot (.quotes extra first last :: pending)

theorem readQuote_eq_more (span : Span) (pending : List Pending) :
    ∃ pending', readQuote span pending = .more (.reading pending') ∧ TakesDot pending' ∧
      ∀ e, complete e pending' = complete (.quoted e) pending := by
  unfold readQuote
  split
  . exact ⟨_, rfl, .quotes .., fun _ => rfl⟩
  . exact ⟨_, rfl, .quotes .., fun _ => rfl⟩

theorem readDot_list (span : Span) {items : List Expr} (pending : List Pending)
    (hitems : items ≠ []) :
    readDot span (.list items :: pending) = .more (.reading (.tail items span :: pending)) := by
  cases items with
  | nil => contradiction
  | cons item items => rfl

mutual

theorem run_reading_elem (elem : Elem) (pending : List Pending) (tokens rest : List Token)
    (h : tokens.map Token.kind = elem.kinds) :
    (State.reading pending).run (tokens ++ rest) = (complete elem.expr pending).run rest := by
  match elem with
  | .symbol name =>
    obtain ⟨token, rfl, hkind⟩ := List.map_eq_singleton_iff.mp h
    simp [State.run_cons, State.step, hkind, Elem.expr]
  | .integer value =>
    obtain ⟨token, rfl, hkind⟩ := List.map_eq_singleton_iff.mp h
    simp [State.run_cons, State.step, hkind, Elem.expr]
  | .string payload =>
    obtain ⟨token, rfl, hkind⟩ := List.map_eq_singleton_iff.mp h
    simp [State.run_cons, State.step, hkind, Elem.expr]
  | .list elems =>
    simp only [Elem.kinds, List.map_eq_cons_iff, List.map_eq_append_iff] at h
    obtain ⟨left, _, rfl, hleft, inside, _, rfl, hinside, right, _, rfl, hright, hnil⟩ := h
    rw [List.map_eq_nil_iff] at hnil
    subst hnil
    simp only [List.cons_append, List.append_assoc, State.run_cons, State.step, hleft,
      Step.run_more]
    rw [run_reading_elems elems [] pending inside _ hinside]
    simp [State.run_cons, State.step, hright, readRightParen, Elem.expr]
  | .dotted first more tail =>
    simp only [Elem.kinds, List.map_eq_cons_iff, List.map_eq_append_iff] at h
    obtain ⟨left, _, rfl, hleft, front, _, rfl, hfront, inside, _, rfl, hinside, dot, _, rfl, hdot,
      back, _, rfl, hback, right, _, rfl, hright, hnil⟩ := h
    rw [List.map_eq_nil_iff] at hnil
    subst hnil
    simp only [List.cons_append, List.append_assoc, State.run_cons, State.step, hleft,
      Step.run_more]
    rw [run_reading_elem first _ front _ hfront, complete, Step.run_more]
    rw [run_reading_elems more [first.expr] pending inside _ hinside]
    rw [State.run_cons, State.step, hdot, readDot_list _ _ (by simp), Step.run_more]
    rw [run_reading_elem tail _ back _ hback, complete, Step.run_more]
    simp [State.run_cons, State.step, hright, Elem.expr]
  | .quoted phrase =>
    simp only [Elem.kinds, List.map_eq_cons_iff] at h
    obtain ⟨quote, inside, rfl, hquote, hinside⟩ := h
    obtain ⟨pending', hread, htakes, hcomplete⟩ := readQuote_eq_more quote.span pending
    simp only [List.cons_append, State.run_cons, State.step, hquote, hread,
      Step.run_more]
    rw [run_reading_phrase phrase pending' htakes inside rest hinside, hcomplete]
    rfl

theorem run_reading_elems (elems : Elems) (items : List Expr) (pending : List Pending)
    (tokens rest : List Token) (h : tokens.map Token.kind = elems.kinds) :
    (State.reading (.list items :: pending)).run (tokens ++ rest) =
      (State.reading (.list (elems.exprs.reverse ++ items) :: pending)).run rest := by
  match elems with
  | .nil =>
    rw [Elems.kinds, List.map_eq_nil_iff] at h
    subst h
    rfl
  | .cons first more =>
    simp only [Elems.kinds, List.map_eq_append_iff] at h
    obtain ⟨front, back, rfl, hfront, hback⟩ := h
    rw [List.append_assoc, run_reading_elem first _ front _ hfront]
    rw [complete, Step.run_more, run_reading_elems more _ pending back rest hback]
    simp [Elems.exprs]

theorem run_reading_phrase (phrase : Phrase) (pending : List Pending) (hpending : TakesDot pending)
    (tokens rest : List Token) (h : tokens.map Token.kind = phrase.kinds) :
    (State.reading pending).run (tokens ++ rest) = (complete phrase.expr pending).run rest := by
  match phrase with
  | .dot =>
    obtain ⟨token, rfl, hkind⟩ := List.map_eq_singleton_iff.mp h
    cases hpending with
    | _ => simp [State.run_cons, State.step, hkind, readDot, Phrase.expr]
  | .elem elem => exact run_reading_elem elem pending tokens rest h

end

/--
The constructs are open after tokens of the given kinds, and what is read of them are the
expressions of derivations.
-/
inductive OpenAfter : List TokenKind → List Pending → Prop where
  | nil : OpenAfter [] []
  | list {kinds : List TokenKind} {pending : List Pending} (elems : Elems) :
    OpenAfter kinds pending →
    OpenAfter (kinds ++ .leftParen :: elems.kinds) (.list elems.exprs.reverse :: pending)
  | tail {kinds : List TokenKind} {pending : List Pending} (first : Elem) (more : Elems)
      (dot : Span) :
    OpenAfter kinds pending →
    OpenAfter (kinds ++ .leftParen :: (first.kinds ++ (more.kinds ++ [.dot])))
      (.tail (first.expr :: more.exprs).reverse dot :: pending)
  | quotes {kinds : List TokenKind} {pending : List Pending} (extra : Nat) (first last : Span) :
    OpenAfter kinds pending →
    OpenAfter (kinds ++ List.replicate (extra + 1) .quote) (.quotes extra first last :: pending)

inductive State.After : List TokenKind → State → Prop where
  | reading {kinds : List TokenKind} {pending : List Pending} :
    OpenAfter kinds pending → State.After kinds (.reading pending)
  | closing {kinds : List TokenKind} {pending : List Pending} (first : Elem) (more : Elems)
      (tail : Elem) (dot : Span) :
    OpenAfter kinds pending →
    State.After (kinds ++ .leftParen :: (first.kinds ++ (more.kinds ++ .dot :: tail.kinds)))
      (.closing (first.expr :: more.exprs).reverse tail.expr dot pending)

def Step.After (kinds : List TokenKind) : Step → Prop
  | .more state => state.After kinds
  | .done expr => ∃ phrase : Phrase, phrase.kinds = kinds ∧ phrase.expr = expr
  | .fail _ => True

theorem exists_elem_quoteTimes (phrase : Phrase) (extra : Nat) :
    ∃ elem : Elem, elem.kinds = List.replicate (extra + 1) .quote ++ phrase.kinds ∧
      elem.expr = quoteTimes (extra + 1) phrase.expr := by
  induction extra generalizing phrase with
  | zero => exact ⟨.quoted phrase, rfl, rfl⟩
  | succ extra ih =>
    obtain ⟨elem, hkinds, hexpr⟩ := ih (.elem (.quoted phrase))
    refine ⟨elem, ?_, ?_⟩
    . rw [hkinds, List.replicate_succ' (n := extra + 1)]
      simp [Phrase.kinds, Elem.kinds]
    . rw [hexpr]
      rfl

theorem complete_elem {kinds : List TokenKind} {pending : List Pending}
    (h : OpenAfter kinds pending) (elem : Elem) :
    (complete elem.expr pending).After (kinds ++ elem.kinds) := by
  induction h generalizing elem with
  | nil => exact ⟨.elem elem, rfl, rfl⟩
  | list elems h _ =>
    have hlist := State.After.reading (.list (elems.concat elem) h)
    simpa [complete, Step.After] using hlist
  | tail first more dot h _ =>
    have hclosing := State.After.closing first more elem dot h
    simpa [complete, Step.After] using hclosing
  -- A run of quotes is complete with its element, so the quoted element is handed on.
  | quotes extra first last _ ih =>
    obtain ⟨quoted, hkinds, hexpr⟩ := exists_elem_quoteTimes (.elem elem) extra
    have hquoted := ih quoted
    rw [hkinds, hexpr, ← List.append_assoc] at hquoted
    exact hquoted

theorem complete_dot {kinds : List TokenKind} {pending : List Pending}
    (h : OpenAfter kinds pending) (hpending : TakesDot pending) :
    (complete .dot pending).After (kinds ++ [.dot]) := by
  cases hpending with
  | nil =>
    cases h
    exact ⟨.dot, rfl, rfl⟩
  | quotes extra first last pending =>
    cases h with
    | quotes _ _ _ h =>
      obtain ⟨quoted, hkinds, hexpr⟩ := exists_elem_quoteTimes .dot extra
      have hquoted := complete_elem h quoted
      rw [hkinds, hexpr, ← List.append_assoc] at hquoted
      exact hquoted

theorem after_readRightParen {kinds : List TokenKind} {pending : List Pending}
    (h : OpenAfter kinds pending) (span : Span) :
    (readRightParen span pending).After (kinds ++ [.rightParen]) := by
  cases h with
  | nil => trivial
  | list elems h =>
    have hlist := complete_elem h (.list elems)
    simpa [readRightParen, Elem.kinds, Elem.expr] using hlist
  | tail => trivial
  | quotes => trivial

theorem after_readDot {kinds : List TokenKind} {pending : List Pending}
    (h : OpenAfter kinds pending) (span : Span) :
    (readDot span pending).After (kinds ++ [.dot]) := by
  cases h with
  | nil => exact complete_dot .nil .nil
  | list elems h =>
    cases elems with
    | nil => trivial
    | cons first more =>
      rw [readDot_list _ _ (by simp [Elems.exprs])]
      have htail := State.After.reading (.tail first more span h)
      simpa [Step.After, Elems.exprs, Elems.kinds] using htail
  | tail => trivial
  | quotes extra first last h => exact complete_dot (.quotes extra first last h) (.quotes ..)

theorem after_readQuote {kinds : List TokenKind} {pending : List Pending}
    (h : OpenAfter kinds pending) (span : Span) :
    (readQuote span pending).After (kinds ++ [.quote]) := by
  cases h with
  | quotes extra first last h =>
    have hquotes := State.After.reading (.quotes (extra + 1) first span h)
    rw [List.replicate_succ', ← List.append_assoc] at hquotes
    exact hquotes
  | nil => exact .reading (.quotes 0 span span .nil)
  | list elems h => exact .reading (.quotes 0 span span (.list elems h))
  | tail first more dot h => exact .reading (.quotes 0 span span (.tail first more dot h))

theorem State.After.step {kinds : List TokenKind} {state : State} (h : state.After kinds)
    (token : Token) :
    (state.step token).After (kinds ++ [token.kind]) := by
  unfold State.step
  cases h with
  | reading h =>
    cases token.kind with
    | leftParen => exact .reading (.list .nil h)
    | rightParen => exact after_readRightParen h token.span
    | dot => exact after_readDot h token.span
    | quote => exact after_readQuote h token.span
    | symbol name => exact complete_elem h (.symbol name)
    | integer value => exact complete_elem h (.integer value)
    | string payload => exact complete_elem h (.string payload)
    | invalid text => trivial
  | closing first more tail dot h =>
    cases token.kind with
    | rightParen =>
      have hdotted := complete_elem h (.dotted first more tail)
      simpa [Elem.kinds, Elem.expr] using hdotted
    | _ => trivial

theorem State.After.run {kinds : List TokenKind} {state : State} (h : state.After kinds)
    {tokens rest : List Token} {e : Expr} (hrun : state.run tokens = ⟨.ok e, rest⟩) :
    ∃ (phrase : Phrase) (front : List Token), tokens = front ++ rest ∧
      phrase.kinds = kinds ++ front.map Token.kind ∧ phrase.expr = e := by
  induction tokens generalizing kinds state with
  | nil => simp [State.run] at hrun
  | cons token tokens ih =>
    have hstep := h.step token
    rw [State.run_cons] at hrun
    cases hs : state.step token with
    | more state' =>
      rw [hs] at hstep hrun
      obtain ⟨phrase, front, rfl, hkinds, hexpr⟩ := ih hstep hrun
      exact ⟨phrase, token :: front, rfl, by simpa using hkinds, hexpr⟩
    | done e' =>
      rw [hs] at hstep hrun
      obtain ⟨phrase, hkinds, hexpr⟩ := hstep
      cases hrun
      exact ⟨phrase, [token], rfl, hkinds, hexpr⟩
    | fail error =>
      rw [hs] at hrun
      simp [Step.run] at hrun

/--
Reading one expression succeeds exactly if the tokens begin with a phrase.
-/
theorem readExpr_eq_ok_iff (tokens rest : List Token) (e : Expr) :
    readExpr tokens = ⟨.ok e, rest⟩ ↔
      ∃ (phrase : Phrase) (front : List Token), tokens = front ++ rest ∧
        front.map Token.kind = phrase.kinds ∧ phrase.expr = e := by
  constructor
  . intro h
    obtain ⟨phrase, front, htokens, hkinds, hexpr⟩ := (State.After.reading .nil).run h
    exact ⟨phrase, front, htokens, hkinds.symm, hexpr⟩
  . rintro ⟨phrase, front, rfl, hkinds, rfl⟩
    rw [readExpr, run_reading_phrase phrase [] .nil front rest hkinds]
    rfl

theorem readAll_of_readExpr {tokens rest : List Token} {e : Expr}
    (h : readExpr tokens = ⟨.ok e, rest⟩) :
    readAll tokens = (readAll rest).map (e :: ·) := by
  cases tokens with
  | nil => simp [readExpr, State.run] at h
  | cons token tokens =>
    rw [readAll, h]
    dsimp only
    cases readAll rest with
    | error e => rfl
    | ok exprs => rfl

theorem readAll_append_of_spells {phrases : List Phrase} {tokens : List Token}
    (h : Spells phrases tokens) (more : List Token) :
    readAll (tokens ++ more) = (readAll more).map (phrases.map Phrase.expr ++ ·) := by
  induction phrases generalizing tokens with
  | nil =>
    rw [Spells, List.flatMap_nil, List.map_eq_nil_iff] at h
    subst h
    exact (congrFun Except.map_id _).symm
  | cons phrase phrases ih =>
    rw [Spells, List.flatMap_cons, List.map_eq_append_iff] at h
    obtain ⟨front, rest, rfl, hfront, hrest⟩ := h
    have hread := (readExpr_eq_ok_iff (front ++ rest ++ more) (rest ++ more) phrase.expr).mpr
      ⟨phrase, front, List.append_assoc _ _ _, hfront, rfl⟩
    rw [readAll_of_readExpr hread, ih hrest]
    cases readAll more with
    | error e => rfl
    | ok later => rfl

theorem readAll_eq_ok_iff (tokens : List Token) (exprs : List Expr) :
    readAll tokens = .ok exprs ↔
      ∃ phrases, Spells phrases tokens ∧ phrases.map Phrase.expr = exprs := by
  constructor
  . intro h
    fun_induction readAll tokens generalizing exprs with
    | case1 =>
      cases h
      exact ⟨[], rfl, rfl⟩
    | case2 => cases h
    | case3 => cases h
    | case4 token tokens reading e he exprs' hrest ih =>
      cases h
      obtain ⟨phrases, hspells, hexprs⟩ := ih exprs' hrest
      have hread : readExpr (token :: tokens) = ⟨.ok e, reading.rest⟩ := by
        rw [← he]
      obtain ⟨phrase, front, htokens, hkinds, hexpr⟩ := (readExpr_eq_ok_iff _ _ _).mp hread
      refine ⟨phrase :: phrases, ?_, ?_⟩
      . unfold Spells at hspells ⊢
        rw [htokens, List.map_append, List.flatMap_cons, hkinds, hspells]
      . rw [List.map_cons, hexpr, hexprs]
  . rintro ⟨phrases, hspells, rfl⟩
    have hread := readAll_append_of_spells hspells []
    rw [List.append_nil, readAll] at hread
    simpa [Except.map] using hread

theorem readAll_append {tokens : List Token} {exprs : List Expr} (h : readAll tokens = .ok exprs)
    (more : List Token) :
    readAll (tokens ++ more) = (readAll more).map (exprs ++ ·) := by
  obtain ⟨phrases, hspells, rfl⟩ := (readAll_eq_ok_iff _ _).mp h
  exact readAll_append_of_spells hspells more

/--
The parser accepts exactly the concatenations of phrases. It gives the expressions of the phrases,
of which there is one choice only, down to the derivation of each.
-/
theorem readAll_exact (tokens : List Token) :
    ((∃ exprs, readAll tokens = .ok exprs) ↔ ∃ phrases, Spells phrases tokens) ∧
    (∀ phrases, Spells phrases tokens →
      readAll tokens = .ok (phrases.map Phrase.expr) ∧
      ∀ others, Spells others tokens → others = phrases) := by
  refine ⟨?_, ?_⟩
  . constructor
    . rintro ⟨exprs, h⟩
      obtain ⟨phrases, hspells, _⟩ := (readAll_eq_ok_iff _ _).mp h
      exact ⟨phrases, hspells⟩
    . rintro ⟨phrases, hspells⟩
      exact ⟨phrases.map Phrase.expr, (readAll_eq_ok_iff _ _).mpr ⟨phrases, hspells, rfl⟩⟩
  . intro phrases hspells
    constructor
    . exact (readAll_eq_ok_iff _ _).mpr ⟨phrases, hspells, rfl⟩
    . intro others hothers
      exact hothers.unique hspells

end Parser

end ChatLisp
