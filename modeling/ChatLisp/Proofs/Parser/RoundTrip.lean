import ChatLisp.Proofs.Expr.Readable

/-!
This module contains the round trip from texts to expressions and back. The printed form of an
expression that was read is cut into the tokens of a derivation, and the expression of this
derivation is the one that was printed, with its loose empty lists named.
-/

namespace ChatLisp

open Grammar

namespace Grammar

/--
The list with at least one element and the given tail, if it has one.
-/
def Elem.ofTail (first : Elem) (more : Elems) : Option Elem → Elem
  | none => .list (.cons first more)
  | some tail => .dotted first more tail

def tailKinds : Option Elem → List TokenKind
  | none => [.rightParen]
  | some tail => .dot :: (tail.kinds ++ [.rightParen])

def tailExpr : Option Elem → Expr
  | none => .nil
  | some tail => tail.expr

@[simp]
theorem Elem.kinds_ofTail (first : Elem) (more : Elems) (tail : Option Elem) :
    (Elem.ofTail first more tail).kinds =
      .leftParen :: (first.kinds ++ (more.kinds ++ tailKinds tail)) := by
  cases tail with
  | none => simp [Elem.ofTail, Elem.kinds, Elems.kinds, tailKinds]
  | some tail => simp [Elem.ofTail, Elem.kinds, tailKinds]

@[simp]
theorem Elem.expr_ofTail (first : Elem) (more : Elems) (tail : Option Elem) :
    (Elem.ofTail first more tail).expr =
      .cons first.expr (.ofListWithTail more.exprs (tailExpr tail)) := by
  cases tail with
  | none => rfl
  | some tail => rfl

end Grammar

namespace Expr

/--
The expression prints as a text that is read back as the given phrase, and the phrase stands for the
expression with its loose empty lists named.
-/
structure Prints (e : Expr) (phrase : Phrase) : Prop where
  expr_eq : phrase.expr = e.nameNils .item
  lexes : ∀ rest kinds, Breaks rest → Lexes rest kinds →
    Lexes (e.chars .item ++ rest) (phrase.kinds ++ kinds)

/--
The same for an expression that stands behind the first item of a list.
-/
structure PrintsTail (e : Expr) (more : Elems) (tail : Option Elem) : Prop where
  expr_eq : ofListWithTail more.exprs (tailExpr tail) = e.nameNils .tail
  lexes : ∀ rest kinds, Lexes rest kinds →
    Lexes (e.chars .tail ++ ')' :: rest) (more.kinds ++ (tailKinds tail ++ kinds))

theorem breaks_chars_tail (e : Expr) (rest : List Char) :
    Breaks (e.chars .tail ++ ')' :: rest) := by
  cases e with
  | nil => exact breaks_rightParen rest
  | _ => exact breaks_blank _

theorem Prints.tail {e : Expr} {elem : Elem} (h : e.Prints (.elem elem))
    (hchars : e.chars .tail = ' ' :: '.' :: ' ' :: e.chars .item)
    (hnils : e.nameNils .tail = e.nameNils .item) :
    e.PrintsTail .nil (some elem) := by
  constructor
  . rw [hnils]
    exact h.expr_eq
  . intro rest kinds hrest
    rw [hchars]
    have hitem := h.lexes _ _ (breaks_rightParen rest) hrest.rightParen
    have htail := hitem.blank.dot.blank
    simpa [Elems.kinds, tailKinds, Phrase.kinds] using htail

theorem prints_integer {value : Int64} (h : 0 ≤ value.toInt) :
    (integer value).Prints (.elem (.integer value)) := by
  constructor
  . rfl
  . intro rest kinds hbreaks hrest
    exact hrest.integer h hbreaks

theorem prints_string (payload : String) :
    (string payload).Prints (.elem (.string payload)) := by
  constructor
  . rfl
  . intro rest kinds _ hrest
    simpa [chars, Position.lead, Phrase.kinds, Elem.kinds] using hrest.string payload

theorem prints_symbol {name : String} (h : isSymbolName name.toList) :
    (symbol name).Prints (.elem (.symbol name)) := by
  constructor
  . rfl
  . intro rest kinds hbreaks hrest
    exact hrest.symbol h hbreaks

theorem prints_nil : nil.Prints (.elem (.symbol "nil")) := by
  constructor
  . rfl
  . intro rest kinds hbreaks hrest
    have hname : isSymbolName "nil".toList := by decide
    exact hrest.symbol hname hbreaks

theorem prints_dot : dot.Prints .dot := by
  constructor
  . rfl
  . intro rest kinds _ hrest
    exact hrest.dot

theorem Prints.quoted {inner : Expr} {phrase : Phrase} (h : inner.Prints phrase) :
    (quoted inner).Prints (.elem (.quoted phrase)) := by
  constructor
  . rw [nameNils, ← h.expr_eq]
    rfl
  . intro rest kinds hbreaks hrest
    exact (h.lexes rest kinds hbreaks hrest).quote

theorem Prints.cons {car cdr : Expr} {first : Elem} {more : Elems} {tail : Option Elem}
    (hcar : car.Prints (.elem first)) (hcdr : cdr.PrintsTail more tail) :
    (cons car cdr).Prints (.elem (.ofTail first more tail)) := by
  constructor
  . rw [nameNils, ← hcar.expr_eq, ← hcdr.expr_eq]
    exact Elem.expr_ofTail first more tail
  . intro rest kinds _ hrest
    have hfirst := hcar.lexes _ _ (breaks_chars_tail cdr rest) (hcdr.lexes rest kinds hrest)
    simpa [chars, Phrase.kinds] using hfirst.leftParen

theorem PrintsTail.cons {car cdr : Expr} {first : Elem} {more : Elems} {tail : Option Elem}
    (hcar : car.Prints (.elem first)) (hcdr : cdr.PrintsTail more tail) :
    (cons car cdr).PrintsTail (.cons first more) tail := by
  constructor
  . rw [nameNils, ← hcar.expr_eq, ← hcdr.expr_eq]
    rfl
  . intro rest kinds hrest
    have hfirst := hcar.lexes _ _ (breaks_chars_tail cdr rest) (hcdr.lexes rest kinds hrest)
    simpa [chars, Elems.kinds, Phrase.kinds] using hfirst.blank

theorem printsTail_nil : nil.PrintsTail .nil none := by
  constructor
  . rfl
  . intro rest kinds hrest
    exact hrest.rightParen

theorem exists_prints_of_isElem {e : Expr} (h : e.IsElem) :
    (∃ elem, e.Prints (.elem elem)) ∧ ∃ more tail, e.PrintsTail more tail := by
  induction e with
  | integer value =>
    have hprints := prints_integer h
    exact ⟨⟨_, hprints⟩, _, _, hprints.tail rfl rfl⟩
  | string payload =>
    have hprints := prints_string payload
    exact ⟨⟨_, hprints⟩, _, _, hprints.tail rfl rfl⟩
  | symbol name =>
    have hprints := prints_symbol h
    exact ⟨⟨_, hprints⟩, _, _, hprints.tail rfl rfl⟩
  | nil => exact ⟨⟨_, prints_nil⟩, _, _, printsTail_nil⟩
  | cons car cdr hcar hcdr =>
    obtain ⟨⟨first, hfirst⟩, _⟩ := hcar h.1
    obtain ⟨_, more, tail, htail⟩ := hcdr h.2
    exact ⟨⟨_, hfirst.cons htail⟩, _, _, .cons hfirst htail⟩
  | quoted inner ih =>
    have hprints : ∃ elem, (quoted inner).Prints (.elem elem) := by
      rcases h with rfl | h
      . exact ⟨_, prints_dot.quoted⟩
      . obtain ⟨⟨elem, helem⟩, _⟩ := ih h
        exact ⟨_, helem.quoted⟩
    obtain ⟨elem, helem⟩ := hprints
    exact ⟨⟨elem, helem⟩, _, _, helem.tail rfl rfl⟩
  | _ => exact absurd h id

theorem IsPhrase.exists_prints {e : Expr} (h : e.IsPhrase) : ∃ phrase, e.Prints phrase := by
  rcases h with rfl | h
  . exact ⟨_, prints_dot⟩
  . obtain ⟨⟨elem, helem⟩, _⟩ := exists_prints_of_isElem h
    exact ⟨_, helem⟩

theorem exists_lexes_intercalate {exprs : List Expr} (h : ∀ e ∈ exprs, e.IsPhrase) :
    ∃ phrases : List Phrase,
      phrases.map Phrase.expr = exprs.map (nameNils .item) ∧
      Lexes ([' '].intercalate (exprs.map (chars .item))) (phrases.flatMap Phrase.kinds) := by
  induction exprs with
  | nil => exact ⟨[], rfl, Lexes.nil⟩
  | cons e exprs ih =>
    simp only [List.mem_cons, forall_eq_or_imp] at h
    obtain ⟨phrase, hphrase⟩ := h.1.exists_prints
    obtain ⟨phrases, hexprs, hlexes⟩ := ih h.2
    refine ⟨phrase :: phrases, ?_, ?_⟩
    . rw [List.map_cons, List.map_cons, hphrase.expr_eq, hexprs]
    -- Only the last phrase stands at the end of the text, all others before a blank.
    . cases exprs with
      | nil =>
        have hkinds := hphrase.lexes _ _ breaks_nil hlexes
        simpa using hkinds
      | cons e' exprs =>
        have hkinds := hphrase.lexes _ _ (breaks_blank _) hlexes.blank
        simpa [List.intercalate_cons_cons] using hkinds

end Expr

theorem parse_of_lexes {text : String} {phrases : List Phrase}
    (h : Lexes text.toList (phrases.flatMap Phrase.kinds)) :
    parse text = .ok (phrases.map Phrase.expr) := by
  obtain ⟨tokens, htokens, hkinds⟩ := h 0
  rw [parse_eq_ok_iff]
  refine ⟨tokens, htokens, ?_⟩
  rw [Parser.readAll_eq_ok_iff]
  exact ⟨phrases, hkinds, rfl⟩

/--
What was read from a text is printed as a text that is read as the same expressions, except that the
loose empty lists come back as the symbol `nil`.
-/
theorem parse_reprint {text : String} {exprs : List Expr} (h : parse text = .ok exprs) :
    parse (" ".intercalate (exprs.map Expr.print)) = .ok (exprs.map (Expr.nameNils .item)) ∧
    (exprs.map (Expr.nameNils .item)).map Expr.print = exprs.map Expr.print ∧
    (exprs.map (Expr.nameNils .item) = exprs ↔ ∀ e ∈ exprs, e.hasLooseNil .item = false) ∧
    (exprs.map (Expr.nameNils .item) == exprs ↔ ∀ e ∈ exprs, e.hasLooseNil .item = false) := by
  refine ⟨?_, ?_, ?_, ?_⟩
  . obtain ⟨phrases, hexprs, hlexes⟩ := Expr.exists_lexes_intercalate (isPhrase_of_parse h)
    rw [← hexprs]
    apply parse_of_lexes
    simpa [Function.comp_def] using hlexes
  . rw [List.map_map, List.map_inj_left]
    intro e _
    exact e.print_nameNils
  . exact Expr.map_nameNils_eq_self_iff exprs
  . exact Expr.map_nameNils_beq_self_iff exprs

theorem parse_reprint_loose_nils :
    let text := "(a () . '()) \"\\q\\n\" '. (1 . ())"
    let exprs : List Expr :=
      [.cons (.symbol "a") (.cons .nil (.quoted .nil)), .string "\\q\n", .quoted .dot,
        .cons (.integer 1) .nil]
    let again : List Expr :=
      [.cons (.symbol "a") (.cons (.symbol "nil") (.quoted (.symbol "nil"))), .string "\\q\n",
        .quoted .dot, .cons (.integer 1) .nil]
    parse text = .ok exprs ∧
    parse (" ".intercalate (exprs.map Expr.print)) = .ok again ∧
    again.map Expr.print = exprs.map Expr.print ∧
    again ≠ exprs := by
  intro text exprs again
  have htext : parse text = .ok exprs := by cbv
  have hagain : exprs.map (Expr.nameNils .item) = again := rfl
  obtain ⟨hparse, hprint, heq, _⟩ := parse_reprint htext
  rw [hagain] at hparse hprint heq
  refine ⟨htext, hparse, hprint, ?_⟩
  intro h
  have hloose := heq.mp h _ List.mem_cons_self
  exact absurd hloose (by decide)

end ChatLisp
