import ChatLisp.Bracket.Balance
import ChatLisp.Proofs.Parser.Nesting
import ChatLisp.Proofs.Token.Joining

/-!
This module contains the check of brackets against the tokens of the text. The check knows nothing
of tokens, but as long as no string breaks off inside of the text, it counts the parentheses among
them. So it agrees with the parser on what is complete and on what is still open.
-/

namespace ChatLisp

/--
The verdict on a text by its tokens, where `depth` parentheses are open before them.
-/
def Bracket.tally (depth : Nat) : List Token → Balance
  | [] => if depth = 0 then .complete else .incomplete
  | token :: tokens =>
    match token.kind with
    | .leftParen => tally (depth + 1) tokens
    | .rightParen =>
      match depth with
      | 0 => .unmatched token.span.start
      | depth + 1 => tally depth tokens
    | kind => if kind.isOpen then .incomplete else tally depth tokens

/--
No character of the text is a bracket or a quote of a string.
-/
def IsPlain (cs : List Char) : Prop :=
  ∀ c ∈ cs, c ≠ '(' ∧ c ≠ ')' ∧ c ≠ '"'

theorem isPlain_singleton {c : Char} (hleft : c ≠ '(') (hright : c ≠ ')') (hquote : c ≠ '"') :
    IsPlain [c] := by
  intro d hd
  rw [List.mem_singleton.mp hd]
  exact ⟨hleft, hright, hquote⟩

theorem isPlain_of_class {p : Char → Bool} {cs : List Char}
    (hp : p '(' = false ∧ p ')' = false ∧ p '"' = false) (h : ∀ c ∈ cs, p c) : IsPlain cs := by
  obtain ⟨hleft, hright, hquote⟩ := hp
  intro c hc
  have hpc := h c hc
  refine ⟨?_, ?_, ?_⟩
  all_goals
    rintro rfl
    simp_all

namespace Lexeme

theorem isPlain_of_first {c : Char} {rest left : List Char} {lexeme : Lexeme}
    (hfirst : first c rest = (lexeme, left)) (hleft : c ≠ '(') (hright : c ≠ ')')
    (hquote : c ≠ '"') :
    IsPlain lexeme.chars := by
  have hc := isPlain_singleton hleft hright hquote
  revert hfirst
  fun_cases first c rest with
  | case1 h => exact absurd h hleft
  | case2 _ h => exact absurd h hright
  | case3 _ _ h =>
    subst h
    rintro ⟨⟩
    exact hc
  | case4 _ _ _ h =>
    subst h
    rintro ⟨⟩
    exact hc
  | case5 _ _ _ _ hstart =>
    rintro ⟨⟩
    apply isPlain_of_class (p := isSymbolPart) (by decide)
    intro d hd
    rcases List.mem_cons.mp hd with rfl | hd
    . simp [isSymbolPart, hstart]
    . exact List.mem_takeWhile_imp hd
  | case6 _ _ _ _ _ hdigit =>
    rintro ⟨⟩
    apply isPlain_of_class (p := isSymbolPart) (by decide)
    intro d hd
    rcases List.mem_cons.mp hd with rfl | hd
    . exact isSymbolPart_of_isDigit hdigit
    . exact isSymbolPart_of_isDigit (List.mem_takeWhile_imp hd)
  | case7 _ _ _ _ _ _ h => exact absurd h hquote
  | case8 =>
    rintro ⟨⟩
    exact hc

theorem first_quote (rest : List Char) :
    first '"' rest =
      (if (scanString false rest).closed then string (scanString false rest).inside
        else invalid ('"' :: (scanString false rest).inside), (scanString false rest).rest) :=
  rfl

end Lexeme

namespace Bracket

open Lexeme

theorem balance_go_cons {mode : Mode} {c : Char} (h : mode = .code → c ≠ '(' ∧ c ≠ ')')
    (depth position : Nat) (rest : List Char) :
    balance.go mode depth position (c :: rest) =
      balance.go (mode.next c) depth (position + c.utf8Size) rest := by
  rw [balance.go.eq_def]
  dsimp only
  rw [if_neg fun hc => (h hc.1).1 hc.2, if_neg fun hc => (h hc.1).2 hc.2]

theorem balance_go_plain {word : List Char} (hword : IsPlain word) (depth position : Nat)
    (rest : List Char) :
    balance.go .code depth position (word ++ rest) =
      balance.go .code depth (position + byteLength word) rest := by
  induction word generalizing position with
  | nil => rfl
  | cons c word ih =>
    obtain ⟨⟨hleft, hright, hquote⟩, hword⟩ := List.forall_mem_cons.mp hword
    rw [List.cons_append, balance_go_cons fun _ => ⟨hleft, hright⟩, Mode.next, if_neg hquote,
      ih hword, byteLength_cons, Nat.add_assoc]

/--
The mode inside of a string literal.
-/
def stringMode (escaped : Bool) : Mode :=
  if escaped then .escaped else .string

theorem next_stringMode_false {c : Char} (hquote : c ≠ '"') :
    (stringMode false).next c = stringMode (c = '\\') := by
  simp [Mode.next, stringMode, hquote]

theorem balance_go_stringMode (escaped : Bool) (depth position : Nat) (c : Char)
    (rest : List Char) :
    balance.go (stringMode escaped) depth position (c :: rest) =
      balance.go ((stringMode escaped).next c) depth (position + c.utf8Size) rest := by
  apply balance_go_cons
  cases escaped with
  | false => nofun
  | true => nofun

theorem balance_go_string {escaped : Bool} {text : List Char}
    (hclosed : (scanString escaped text).closed) (depth position : Nat) :
    balance.go (stringMode escaped) depth position text =
      balance.go .code depth (position + byteLength ((scanString escaped text).inside ++ ['"']))
        (scanString escaped text).rest := by
  fun_induction scanString escaped text generalizing position with
  | case1 => cases hclosed
  | case2 => cases hclosed
  | case3 c rest _ ih =>
    rw [balance_go_stringMode]
    exact (ih hclosed _).trans (by simp [StringScan.cons, Nat.add_assoc])
  | case4 escaped rest hescaped =>
    cases eq_false_of_ne_true hescaped
    rw [balance_go_stringMode]
    rfl
  | case5 escaped c rest hescaped hquote ih =>
    cases eq_false_of_ne_true hescaped
    rw [balance_go_stringMode, next_stringMode_false hquote]
    exact (ih hclosed _).trans (by simp [StringScan.cons, Nat.add_assoc])

theorem balance_go_openString {escaped : Bool} {text : List Char}
    (hopen : (scanString escaped text).closed = false)
    (hrest : (scanString escaped text).rest = []) (depth position : Nat) :
    balance.go (stringMode escaped) depth position text = .incomplete := by
  fun_induction scanString escaped text generalizing position with
  | case1 escaped => cases escaped <;> rfl
  | case2 => cases hrest
  | case3 c rest _ ih =>
    rw [balance_go_stringMode]
    exact ih hopen hrest _
  | case4 => cases hopen
  | case5 escaped c rest hescaped hquote ih =>
    cases eq_false_of_ne_true hescaped
    rw [balance_go_stringMode, next_stringMode_false hquote]
    exact ih hopen hrest _

section

variable {c : Char} {rest left : List Char} {lexeme : Lexeme} {kind : TokenKind}

theorem balance_go_lexeme (hfirst : first c rest = (lexeme, left))
    (hkind : lexeme.kind? = some kind) (hclosed : ¬ kind.isOpen) (hleft : c ≠ '(')
    (hright : c ≠ ')') (depth start : Nat) :
    balance.go .code depth start (c :: rest) =
      balance.go .code depth (start + byteLength lexeme.chars) left := by
  by_cases hquote : c = '"'
  . subst hquote
    rw [first_quote] at hfirst
    cases hscan : (scanString false rest).closed with
    | true =>
      rw [hscan] at hfirst
      cases hfirst
      have hquoted : balance.go .code depth start ('"' :: rest) =
          balance.go (stringMode false) depth (start + '"'.utf8Size) rest := rfl
      rw [hquoted, balance_go_string hscan, Nat.add_assoc]
      rfl
    | false =>
      rw [hscan] at hfirst
      cases hfirst
      cases hkind
      exact absurd (by simp [TokenKind.isOpen]) hclosed
  . rw [← Lexeme.chars_append_of_first hfirst,
      balance_go_plain (isPlain_of_first hfirst hleft hright hquote)]

theorem scanString_of_isOpen (hfirst : first c rest = (lexeme, left))
    (hkind : lexeme.kind? = some kind) (hopen : kind.isOpen) :
    c = '"' ∧ (scanString false rest).closed = false ∧ left = (scanString false rest).rest := by
  cases lexeme with
  | invalid text =>
    cases hkind
    rw [TokenKind.isOpen, String.toList_ofList, decide_eq_true_eq] at hopen
    have hchars : text ++ left = c :: rest := Lexeme.chars_append_of_first hfirst
    obtain ⟨tail, rfl⟩ := List.head?_eq_some_iff.mp hopen
    rw [List.cons_append] at hchars
    obtain ⟨rfl, rfl⟩ := List.cons.inj hchars
    rw [first_quote] at hfirst
    obtain ⟨hinvalid, hrest⟩ := Prod.mk.inj hfirst
    refine ⟨rfl, ?_, hrest.symm⟩
    cases hscan : (scanString false (tail ++ left)).closed with
    | true =>
      rw [hscan] at hinvalid
      cases hinvalid
    | false => rfl
  | digits run =>
    obtain ⟨value, _, rfl⟩ := Option.map_eq_some_iff.mp hkind
    cases hopen
  | _ =>
    cases hkind
    cases hopen

theorem balance_go_of_isOpen (hfirst : first c rest = (lexeme, []))
    (hkind : lexeme.kind? = some kind) (hopen : kind.isOpen) (depth start : Nat) :
    balance.go .code depth start (c :: rest) = .incomplete := by
  obtain ⟨rfl, hscan, hrest⟩ := scanString_of_isOpen hfirst hkind hopen
  exact balance_go_openString hscan hrest.symm depth (start + '"'.utf8Size)

theorem tally_of_isOpen (hopen : kind.isOpen) (depth : Nat) (span : Span) (tokens : List Token) :
    tally depth (⟨kind, span⟩ :: tokens) = .incomplete := by
  cases kind with
  | invalid text => exact if_pos hopen
  | _ => cases hopen

theorem tally_lexeme (hfirst : first c rest = (lexeme, left)) (hkind : lexeme.kind? = some kind)
    (hclosed : ¬ kind.isOpen) (hleft : c ≠ '(') (hright : c ≠ ')') (depth : Nat) (span : Span)
    (tokens : List Token) :
    tally depth (⟨kind, span⟩ :: tokens) = tally depth tokens := by
  have hchars := Lexeme.chars_append_of_first hfirst
  cases lexeme with
  | leftParen => exact absurd (List.cons.inj hchars).1.symm hleft
  | rightParen => exact absurd (List.cons.inj hchars).1.symm hright
  | invalid text =>
    cases hkind
    exact if_neg hclosed
  | digits run =>
    obtain ⟨value, _, rfl⟩ := Option.map_eq_some_iff.mp hkind
    rfl
  | _ =>
    cases hkind
    rfl

end

/--
The check of a text is the count of its tokens, if a string that is not closed takes the whole rest
of the text.
-/
theorem balance_go_eq_tally {start : Nat} {cs : List Char} {tokens : List Token}
    (h : Cut start cs tokens)
    (hopen : ∀ token ∈ tokens, token.kind.isOpen → token.span.stop = start + byteLength cs)
    (depth : Nat) :
    balance.go .code depth start cs = tally depth tokens := by
  induction h generalizing depth with
  | nil start => simp [balance.go, tally]
  | @blank start c rest tokens hc _ ih =>
    rw [byteLength_cons, ← Nat.add_assoc] at hopen
    have hplain : IsPlain [c] := isPlain_of_class (p := isBlank) (by decide) (by simpa using hc)
    rw [← ih hopen, ← List.singleton_append, balance_go_plain hplain]
    simp
  | @token start c rest left lexeme kind tokens hc hfirst hkind _ ih =>
    rw [← Lexeme.chars_append_of_first hfirst, byteLength_append, ← Nat.add_assoc] at hopen
    obtain ⟨hstop, hlater⟩ := List.forall_mem_cons.mp hopen
    by_cases hisOpen : kind.isOpen
    . have hleft : left = [] := by
        have hstop := hstop hisOpen
        rw [← byteLength_eq_zero_iff]
        dsimp only at hstop
        omega
      subst hleft
      rw [balance_go_of_isOpen hfirst hkind hisOpen, tally_of_isOpen hisOpen]
    by_cases hleft : c = '('
    . subst hleft
      cases hfirst
      cases hkind
      exact ih hlater (depth + 1)
    by_cases hright : c = ')'
    . subst hright
      cases hfirst
      cases hkind
      cases depth with
      | zero => rfl
      | succ depth => exact ih hlater depth
    . rw [balance_go_lexeme hfirst hkind hisOpen hleft hright, ih hlater,
        tally_lexeme hfirst hkind hisOpen hleft hright]

theorem tally_of_nesting {tokens : List Token} {depth unclosed : Nat}
    (h : nesting depth (tokens.map Token.kind) = some unclosed) :
    tally depth tokens = if unclosed = 0 then .complete else .incomplete := by
  induction tokens generalizing depth with
  | nil =>
    cases h
    rfl
  | cons token tokens ih =>
    obtain ⟨kind, span⟩ := token
    cases kind with
    | invalid text => cases h
    | rightParen =>
      cases depth with
      | zero => cases h
      | succ depth => exact ih h
    | _ => exact ih h

theorem balance_of_nesting {text : String} {tokens : List Token} {unclosed : Nat}
    (htokens : tokenize text = .ok tokens)
    (h : nesting 0 (tokens.map Token.kind) = some unclosed) :
    balance text.toList = if unclosed = 0 then .complete else .incomplete := by
  have hopen : ∀ token ∈ tokens, token.kind.isOpen →
      token.span.stop = 0 + byteLength text.toList := by
    intro token htoken hisOpen
    exact absurd hisOpen (not_isOpen_of_nesting h token htoken)
  exact (balance_go_eq_tally (cut_of_go htokens) hopen 0).trans (tally_of_nesting h)

/--
The check never contradicts the parser: a text that the parser accepts is complete, and one that
ends too early for the parser is still open. The check and the lexer disagree on a backslash before
a newline in a string, but there the parser has an error of another kind.
-/
theorem balance_agrees (text : String) :
    (∀ exprs, parse text = .ok exprs → balance text.toList = .complete) ∧
    (∀ expected, parse text = .error (.parse (.unexpectedEnd expected)) →
      balance text.toList = .incomplete) := by
  constructor
  . intro exprs hparse
    obtain ⟨tokens, htokens, hexprs⟩ := parse_eq_ok_iff.mp hparse
    exact balance_of_nesting htokens (Parser.nesting_of_readAll_ok hexprs)
  . intro expected hparse
    obtain ⟨tokens, htokens, herror⟩ := parse_eq_parse_error_iff.mp hparse
    obtain ⟨unclosed, hunclosed⟩ := Parser.nesting_of_readAll_unexpectedEnd herror
    exact balance_of_nesting htokens hunclosed

theorem balance_agrees_paren_in_string :
    parse "(f \"(\\\"\")" = .ok [.ofList [.symbol "f", .string "(\""]] ∧
    balance "(f \"(\\\"\")".toList = .complete ∧
    parse "(f \")\\\"\" ." = .error (.parse (.unexpectedEnd .tail)) ∧
    balance "(f \")\\\"\" .".toList = .incomplete := by
  have hcomplete : parse "(f \"(\\\"\")" = .ok [.ofList [.symbol "f", .string "(\""]] := by cbv
  have hearly : parse "(f \")\\\"\" ." = .error (.parse (.unexpectedEnd .tail)) := by cbv
  exact ⟨hcomplete, (balance_agrees _).1 _ hcomplete, hearly, (balance_agrees _).2 _ hearly⟩

example :
    tokenize "\"\\\n\"" = .ok [⟨.invalid "\"\\", ⟨0, 2⟩⟩, ⟨.invalid "\"", ⟨3, 4⟩⟩] ∧
      balance "\"\\\n\"".toList = .complete := by
  cbv

end Bracket

end ChatLisp
