import ChatLisp.Proofs.Expr.Sameness
import ChatLisp.Proofs.Parser.Language
import ChatLisp.Proofs.Token.Lexing

/-!
This module contains the expressions that are read from texts, and what becomes of `nil` when they
are printed: the empty list prints as the word `nil`, which is read as a symbol, unless it ends a
chain of cons cells and so is not printed at all.
-/

namespace ChatLisp

open Grammar

namespace Expr

/--
The expressions that may be read as an item of a list.
-/
def IsElem : Expr → Prop
  | integer value => 0 ≤ value.toInt
  | string _ => True
  | symbol name => isSymbolName name.toList
  | nil => True
  | cons car cdr => car.IsElem ∧ cdr.IsElem
  | quoted inner => inner = dot ∨ inner.IsElem
  | _ => False

/--
The expressions that may be read on their own.
-/
def IsPhrase (e : Expr) : Prop :=
  e = dot ∨ e.IsElem

/--
The expression with the symbol `nil` in place of every empty list that does not end a chain of cons
cells.
-/
def nameNils (position : Position) : Expr → Expr
  | nil =>
    match position with
    | .item => symbol "nil"
    | .tail => nil
  | cons car cdr => cons (car.nameNils .item) (cdr.nameNils .tail)
  | quoted inner => quoted (inner.nameNils .item)
  | e => e

/--
Whether an empty list that does not end a chain of cons cells is in the expression.
-/
def hasLooseNil (position : Position) : Expr → Bool
  | nil => position = .item
  | cons car cdr => car.hasLooseNil .item || cdr.hasLooseNil .tail
  | quoted inner => inner.hasLooseNil .item
  | _ => false

theorem isElem_ofListWithTail {items : List Expr} {tail : Expr}
    (hitems : ∀ e ∈ items, e.IsElem) (htail : tail.IsElem) :
    (ofListWithTail items tail).IsElem := by
  induction items with
  | nil => exact htail
  | cons item items ih =>
    simp only [List.mem_cons, forall_eq_or_imp] at hitems
    exact ⟨hitems.1, ih hitems.2⟩

theorem chars_nameNils (position : Position) (e : Expr) :
    (e.nameNils position).chars position = e.chars position := by
  induction e generalizing position with
  | nil => cases position <;> rfl
  | cons car cdr hcar hcdr => cases position <;> simp [nameNils, chars, hcar, hcdr]
  | quoted inner ih => simp [nameNils, chars, ih]
  | _ => rfl

theorem print_nameNils (e : Expr) : (e.nameNils .item).print = e.print := by
  rw [print, chars_nameNils, print]

theorem nameNils_eq_self_iff (position : Position) (e : Expr) :
    e.nameNils position = e ↔ e.hasLooseNil position = false := by
  induction e generalizing position with
  | nil => cases position <;> simp [nameNils, hasLooseNil]
  | cons car cdr hcar hcdr => simp [nameNils, hasLooseNil, hcar, hcdr]
  | quoted inner ih => simp [nameNils, hasLooseNil, ih]
  | _ => simp [nameNils, hasLooseNil]

theorem beq_nameNils (position : Position) (e : Expr) :
    (e.nameNils position).beq e = !e.hasLooseNil position := by
  induction e generalizing position with
  | nil => cases position <;> rfl
  | cons car cdr hcar hcdr => simp [nameNils, hasLooseNil, Expr.beq, hcar, hcdr]
  | quoted inner ih => simp [nameNils, hasLooseNil, Expr.beq, ih]
  | _ => simp [nameNils, hasLooseNil]

theorem map_nameNils_eq_self_iff (exprs : List Expr) :
    exprs.map (nameNils .item) = exprs ↔ ∀ e ∈ exprs, e.hasLooseNil .item = false := by
  induction exprs with
  | nil => simp
  | cons e exprs ih =>
    simp only [List.map_cons, List.cons.injEq, nameNils_eq_self_iff, ih, List.mem_cons,
      forall_eq_or_imp]

theorem map_nameNils_beq_self_iff (exprs : List Expr) :
    exprs.map (nameNils .item) == exprs ↔ ∀ e ∈ exprs, e.hasLooseNil .item = false := by
  induction exprs with
  | nil => simp
  | cons e exprs ih =>
    have hbeq : (e.nameNils .item == e) = !e.hasLooseNil .item := beq_nameNils .item e
    simp only [List.map_cons, List.cons_beq_cons, hbeq, Bool.and_eq_true, ih, List.mem_cons,
      forall_eq_or_imp, Bool.not_eq_true']

end Expr

namespace Grammar

mutual

theorem Elem.isElem_expr (elem : Elem) (h : ∀ kind ∈ elem.kinds, kind.IsLexical) :
    elem.expr.IsElem := by
  match elem with
  | .symbol name => exact h _ List.mem_cons_self
  | .integer value => exact h _ List.mem_cons_self
  | .string payload => trivial
  | .list elems =>
    apply Expr.isElem_ofListWithTail
    . apply Elems.isElem_exprs elems
      intro kind hkind
      apply h
      simp [Elem.kinds, hkind]
    . trivial
  | .dotted first more tail =>
    simp only [Elem.kinds, List.mem_cons, List.mem_append] at h
    apply Expr.isElem_ofListWithTail
    . simp only [List.mem_cons, forall_eq_or_imp]
      constructor
      . apply Elem.isElem_expr first
        grind
      . apply Elems.isElem_exprs more
        grind
    . apply Elem.isElem_expr tail
      grind
  | .quoted phrase =>
    apply Phrase.isPhrase_expr phrase
    intro kind hkind
    apply h
    simp [Elem.kinds, hkind]

theorem Elems.isElem_exprs (elems : Elems) (h : ∀ kind ∈ elems.kinds, kind.IsLexical) :
    ∀ e ∈ elems.exprs, e.IsElem := by
  match elems with
  | .nil => simp [Elems.exprs]
  | .cons first more =>
    simp only [Elems.kinds, List.mem_append] at h
    simp only [Elems.exprs, List.mem_cons, forall_eq_or_imp]
    constructor
    . exact Elem.isElem_expr first fun kind hkind => h kind (.inl hkind)
    . exact Elems.isElem_exprs more fun kind hkind => h kind (.inr hkind)

theorem Phrase.isPhrase_expr (phrase : Phrase) (h : ∀ kind ∈ phrase.kinds, kind.IsLexical) :
    phrase.expr.IsPhrase := by
  match phrase with
  | .dot => exact .inl rfl
  | .elem elem => exact .inr (Elem.isElem_expr elem h)

end

end Grammar

theorem exists_phrase_of_parse {text : String} {exprs : List Expr} (h : parse text = .ok exprs) :
    ∃ tokens, tokenize text = .ok tokens ∧ ∀ e ∈ exprs, ∃ phrase : Phrase, phrase.expr = e ∧
      ∀ kind ∈ phrase.kinds, kind ∈ tokens.map Token.kind := by
  obtain ⟨tokens, htokens, hexprs⟩ := parse_eq_ok_iff.mp h
  obtain ⟨phrases, hspells, rfl⟩ := (Parser.readAll_eq_ok_iff _ _).mp hexprs
  refine ⟨tokens, htokens, ?_⟩
  intro e he
  obtain ⟨phrase, hphrase, rfl⟩ := List.mem_map.mp he
  refine ⟨phrase, rfl, ?_⟩
  intro kind hkind
  rw [hspells]
  exact List.mem_flatMap_of_mem hphrase hkind

theorem isPhrase_of_parse {text : String} {exprs : List Expr} (h : parse text = .ok exprs) :
    ∀ e ∈ exprs, e.IsPhrase := by
  obtain ⟨tokens, htokens, hphrases⟩ := exists_phrase_of_parse h
  intro e he
  obtain ⟨phrase, rfl, hkinds⟩ := hphrases e he
  apply phrase.isPhrase_expr
  intro kind hkind
  obtain ⟨token, htoken, rfl⟩ := List.mem_map.mp (hkinds kind hkind)
  exact isLexical_of_tokenize htokens token htoken

end ChatLisp
