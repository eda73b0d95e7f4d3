import ChatLisp.Proofs.Bracket.Balance

/-!
This module contains the verdict of the bracket check in terms of the tokens alone. In a text
without a backslash before a newline, a string that breaks off takes all that follows it. So the
check and the lexer agree on every string, and the check counts the parenthesis tokens from the
left.
-/

namespace ChatLisp

namespace Lexeme

theorem rest_scanString_eq_nil {escaped : Bool} {text : List Char}
    (hopen : (scanString escaped text).closed = false)
    (hbreak : ¬ ['\\', '\n'] <:+: cond escaped ['\\'] [] ++ text) :
    (scanString escaped text).rest = [] := by
  fun_induction scanString escaped text with
  | case1 => rfl
  | case2 rest => exact absurd ⟨[], rest, rfl⟩ hbreak
  | case3 c rest _ ih =>
    apply ih hopen
    intro hinside
    exact hbreak (hinside.trans (List.suffix_append ['\\', c] rest).isInfix)
  | case4 => cases hopen
  | case5 escaped c rest hescaped _ ih =>
    cases eq_false_of_ne_true hescaped
    apply ih hopen
    intro hinside
    apply hbreak
    by_cases hslash : c = '\\'
    . simpa [hslash] using hinside
    . have hrest : ['\\', '\n'] <:+: rest := by simpa [hslash] using hinside
      exact hrest.trans (List.suffix_cons c rest).isInfix

theorem left_eq_nil_of_isOpen {c : Char} {rest left : List Char} {lexeme : Lexeme}
    {kind : TokenKind} (hfirst : first c rest = (lexeme, left)) (hkind : lexeme.kind? = some kind)
    (hopen : kind.isOpen) (hbreak : ¬ ['\\', '\n'] <:+: c :: rest) :
    left = [] := by
  obtain ⟨rfl, hclosed, rfl⟩ := Bracket.scanString_of_isOpen hfirst hkind hopen
  apply rest_scanString_eq_nil hclosed
  intro hinside
  exact hbreak (hinside.trans (List.suffix_cons '"' rest).isInfix)

end Lexeme

namespace Bracket

/--
The number of lists that are open behind a token, if `depth` lists are open before it. A right
parenthesis that finds none of them open closes none.
-/
def depthBehind (depth : Nat) (token : Token) : Nat :=
  match token.kind with
  | .leftParen => depth + 1
  | .rightParen => depth - 1
  | _ => depth

def openBehind (depth : Nat) (tokens : List Token) : Nat :=
  tokens.foldl depthBehind depth

/--
The token is a right parenthesis, and it finds no list open behind the tokens before it.
-/
def IsStray (depth : Nat) (before : List Token) (token : Token) : Prop :=
  token.kind = .rightParen ∧ openBehind depth before = 0

/--
No right parenthesis among the tokens is a stray one.
-/
def NoStray (depth : Nat) (tokens : List Token) : Prop :=
  ∀ before token after, tokens = before ++ token :: after → ¬ IsStray depth before token

/--
The token, which stands behind the tokens `before`, is the first stray right parenthesis.
-/
structure IsFirstStray (tokens before : List Token) (token : Token) : Prop where
  stands : ∃ after, tokens = before ++ token :: after
  stray : IsStray 0 before token
  first : NoStray 0 before

/--
The last token is a string without its end, or a list is still open behind all tokens.
-/
def EndsOpen (tokens : List Token) : Prop :=
  (∃ last ∈ tokens.getLast?, last.kind.isOpen) ∨ 0 < openBehind 0 tokens

theorem noStray_cons {depth : Nat} {token : Token} {tokens : List Token} :
    NoStray depth (token :: tokens) ↔
      ¬ IsStray depth [] token ∧ NoStray (depthBehind depth token) tokens := by
  constructor
  . intro h
    refine ⟨h [] token tokens rfl, ?_⟩
    rintro before other after rfl
    exact h (token :: before) other after rfl
  . rintro ⟨hfirst, hrest⟩ before other after hsplit
    cases before with
    | nil =>
      cases hsplit
      exact hfirst
    | cons head before =>
      cases hsplit
      exact hrest before other after rfl

instance (depth : Nat) (before : List Token) (token : Token) :
    Decidable (IsStray depth before token) :=
  inferInstanceAs (Decidable (_ ∧ _))

instance decidableNoStray (depth : Nat) : (tokens : List Token) → Decidable (NoStray depth tokens)
  | [] => .isTrue fun before _ _ hsplit => absurd hsplit (by simp)
  | token :: tokens =>
    have := decidableNoStray (depthBehind depth token) tokens
    decidable_of_iff _ noStray_cons.symm

instance (tokens : List Token) : Decidable (EndsOpen tokens) :=
  inferInstanceAs (Decidable (_ ∨ _))

theorem NoStray.front {depth : Nat} {tokens more : List Token}
    (h : NoStray depth (tokens ++ more)) :
    NoStray depth tokens := by
  rintro before token after rfl
  exact h before token (after ++ more) (by simp)

theorem exists_isFirstStray {tokens before after : List Token} {token : Token}
    (hsplit : tokens = before ++ token :: after) (hstray : IsStray 0 before token) :
    ∃ before token, IsFirstStray tokens before token := by
  by_cases hfirst : NoStray 0 before
  . exact ⟨before, token, ⟨after, hsplit⟩, hstray, hfirst⟩
  . simp only [NoStray, not_forall, not_not] at hfirst
    obtain ⟨earlier, other, later, rfl, hother⟩ := hfirst
    have hearlier : tokens = earlier ++ other :: (later ++ token :: after) := by simp [hsplit]
    exact exists_isFirstStray hearlier hother
termination_by before.length

theorem tally_append {depth : Nat} {tokens : List Token} (hstray : NoStray depth tokens)
    (hclosed : ∀ token ∈ tokens, ¬ token.kind.isOpen) (more : List Token) :
    tally depth (tokens ++ more) = tally (openBehind depth tokens) more := by
  induction tokens generalizing depth with
  | nil => rfl
  | cons token tokens ih =>
    obtain ⟨hfirst, hrest⟩ := noStray_cons.mp hstray
    obtain ⟨hkind, hlater⟩ := List.forall_mem_cons.mp hclosed
    have hmore := ih hrest hlater
    obtain ⟨kind, span⟩ := token
    cases kind with
    | rightParen =>
      cases depth with
      | zero => exact absurd ⟨rfl, rfl⟩ hfirst
      | succ depth => exact hmore
    | invalid text => exact (if_neg hkind).trans hmore
    | _ => exact hmore

theorem tally_of_isStray {depth : Nat} {before after : List Token} {token : Token}
    (hfirst : NoStray depth before) (hstray : IsStray depth before token)
    (hclosed : ∀ other ∈ before, ¬ other.kind.isOpen) :
    tally depth (before ++ token :: after) = .unmatched token.span.start := by
  obtain ⟨hkind, hdepth⟩ := hstray
  rw [tally_append hfirst hclosed, hdepth, tally, hkind]

theorem tally_of_noStray {tokens : List Token} (hstray : NoStray 0 tokens)
    (hlast : ∀ before token after, tokens = before ++ token :: after → token.kind.isOpen →
      after = []) :
    (EndsOpen tokens → tally 0 tokens = .incomplete) ∧
      (¬ EndsOpen tokens → tally 0 tokens = .complete) := by
  by_cases hopen : ∃ token ∈ tokens, token.kind.isOpen
  . obtain ⟨token, htoken, hopen⟩ := hopen
    obtain ⟨before, after, rfl⟩ := List.append_of_mem htoken
    obtain rfl := hlast before token after rfl hopen
    have hends : EndsOpen (before ++ [token]) := .inl ⟨token, by simp, hopen⟩
    refine ⟨fun _ => ?_, fun h => absurd hends h⟩
    rw [tally_append hstray.front, tally_of_isOpen hopen]
    intro other hother hopen
    obtain ⟨earlier, later, rfl⟩ := List.append_of_mem hother
    have hnil := hlast earlier other (later ++ [token]) (by simp) hopen
    simp at hnil
  . have hclosed : ∀ token ∈ tokens, ¬ token.kind.isOpen :=
      fun token htoken hkind => hopen ⟨token, htoken, hkind⟩
    have htally := tally_append hstray hclosed []
    rw [List.append_nil, tally] at htally
    rw [htally]
    constructor
    . rintro (⟨last, hmem, hkind⟩ | hdepth)
      . exact absurd hkind (hclosed last (List.mem_of_getLast? hmem))
      . exact if_neg hdepth.ne'
    . intro hends
      exact if_pos (Nat.eq_zero_of_not_pos fun hdepth => hends (.inr hdepth))

end Bracket

theorem Cut.isOpen_last {start : Nat} {cs : List Char} {tokens : List Token}
    (h : Cut start cs tokens) (hbreak : ¬ ['\\', '\n'] <:+: cs) :
    ∀ before token after, tokens = before ++ token :: after → token.kind.isOpen →
      after = [] ∧ token.span.stop = start + byteLength cs := by
  induction h with
  | nil start =>
    intro before token after hsplit
    simp at hsplit
  | @blank start c rest tokens _ _ ih =>
    rw [byteLength_cons, ← Nat.add_assoc]
    apply ih
    intro hinside
    exact hbreak (hinside.trans (List.suffix_cons c rest).isInfix)
  | @token start c rest left lexeme kind tokens hc hfirst hkind hrest ih =>
    have hchars := Lexeme.chars_append_of_first hfirst
    intro before token after hsplit hopen
    cases before with
    | nil =>
      cases hsplit
      have hleft := Lexeme.left_eq_nil_of_isOpen hfirst hkind hopen hbreak
      subst hleft
      cases hrest
      rw [← hchars, List.append_nil]
      exact ⟨rfl, rfl⟩
    | cons head before =>
      cases hsplit
      rw [← hchars, byteLength_append, ← Nat.add_assoc]
      apply ih _ before token after rfl hopen
      intro hinside
      apply hbreak
      rw [← hchars]
      exact hinside.trans (List.suffix_append _ left).isInfix

namespace Bracket

/--
The bracket check in terms of the tokens, for a text without a backslash before a newline. It names
the first right parenthesis token that finds no list open. If there is none, the text is incomplete
exactly if its last token is a string without its end or some list is still open.
-/
theorem balance_eq_count {text : String} {tokens : List Token}
    (htokens : tokenize text = .ok tokens) (hbreak : ¬ ['\\', '\n'] <:+: text.toList) :
    (∀ position, balance text.toList = .unmatched position ↔
      ∃ before token, IsFirstStray tokens before token ∧ token.span.start = position) ∧
    (NoStray 0 tokens →
      (balance text.toList = .incomplete ↔ EndsOpen tokens) ∧
      (balance text.toList = .complete ↔ ¬ EndsOpen tokens)) := by
  have hlast := (cut_of_go htokens).isOpen_last hbreak
  have htally : balance text.toList = tally 0 tokens := by
    apply balance_go_eq_tally (cut_of_go htokens)
    intro token htoken hopen
    obtain ⟨before, after, hsplit⟩ := List.append_of_mem htoken
    exact (hlast before token after hsplit hopen).2
  have hnone : NoStray 0 tokens → (EndsOpen tokens → balance text.toList = .incomplete) ∧
      (¬ EndsOpen tokens → balance text.toList = .complete) := by
    intro hstray
    rw [htally]
    exact tally_of_noStray hstray fun before token after hsplit hopen =>
      (hlast before token after hsplit hopen).1
  have hfirst : ∀ before token, IsFirstStray tokens before token →
      balance text.toList = .unmatched token.span.start := by
    rintro before token ⟨⟨after, hsplit⟩, hstray, hfirst⟩
    rw [htally, hsplit]
    apply tally_of_isStray hfirst hstray
    -- An open string would be the last token, but the stray parenthesis follows.
    intro other hother hopen
    obtain ⟨earlier, later, rfl⟩ := List.append_of_mem hother
    have hnil := (hlast earlier other (later ++ token :: after) (by simp [hsplit]) hopen).1
    simp at hnil
  constructor
  . intro position
    constructor
    . intro hbalance
      by_cases hstray : NoStray 0 tokens
      . by_cases hends : EndsOpen tokens
        . simp [(hnone hstray).1 hends] at hbalance
        . simp [(hnone hstray).2 hends] at hbalance
      . simp only [NoStray, not_forall, not_not] at hstray
        obtain ⟨before, token, after, hsplit, hstray⟩ := hstray
        obtain ⟨before, token, hbefore⟩ := exists_isFirstStray hsplit hstray
        rw [hfirst before token hbefore] at hbalance
        cases hbalance
        exact ⟨before, token, hbefore, rfl⟩
    . rintro ⟨before, token, hbefore, rfl⟩
      exact hfirst before token hbefore
  . intro hstray
    obtain ⟨hincomplete, hcomplete⟩ := hnone hstray
    by_cases hends : EndsOpen tokens
    . simp [hincomplete hends, hends]
    . simp [hcomplete hends, hends]

theorem balance_eq_count_escapes :
    let strayText := "(é \")\" \\ ')) \""
    let openText := "'(\"\\\")\" ) \"(\\"
    (∃ tokens, tokenize strayText = .ok tokens) ∧ (¬ ['\\', '\n'] <:+: strayText.toList) ∧
      balance strayText.toList = .unmatched 12 ∧
    (∃ tokens, tokenize openText = .ok tokens) ∧ (¬ ['\\', '\n'] <:+: openText.toList) ∧
      balance openText.toList = .incomplete := by
  intro strayText openText
  let front : List Token := [⟨.leftParen, ⟨0, 1⟩⟩, ⟨.invalid "é", ⟨1, 3⟩⟩, ⟨.string ")", ⟨4, 7⟩⟩,
    ⟨.invalid "\\", ⟨8, 9⟩⟩, ⟨.quote, ⟨10, 11⟩⟩, ⟨.rightParen, ⟨11, 12⟩⟩]
  have hstray : tokenize strayText =
      .ok (front ++ [⟨.rightParen, ⟨12, 13⟩⟩, ⟨.invalid "\"", ⟨14, 15⟩⟩]) := by
    cbv
  have hopen : tokenize openText = .ok [⟨.quote, ⟨0, 1⟩⟩, ⟨.leftParen, ⟨1, 2⟩⟩,
      ⟨.string "\")", ⟨2, 7⟩⟩, ⟨.rightParen, ⟨8, 9⟩⟩, ⟨.invalid "\"(\\", ⟨10, 13⟩⟩] := by
    cbv
  have hstrayBreak : ¬ ['\\', '\n'] <:+: strayText.toList := by decide
  have hopenBreak : ¬ ['\\', '\n'] <:+: openText.toList := by decide
  refine ⟨⟨_, hstray⟩, hstrayBreak, ?_, ⟨_, hopen⟩, hopenBreak, ?_⟩
  . rw [(balance_eq_count hstray hstrayBreak).1]
    exact ⟨front, ⟨.rightParen, ⟨12, 13⟩⟩, ⟨⟨_, rfl⟩, by decide, by decide⟩, rfl⟩
  . rw [((balance_eq_count hopen hopenBreak).2 (by decide)).1]
    decide

end Bracket

end ChatLisp
