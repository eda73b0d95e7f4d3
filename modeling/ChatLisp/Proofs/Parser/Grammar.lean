import ChatLisp.Expr.List
import ChatLisp.Token.Basic

/-!
This module contains the grammar of the language: its derivations, the kinds of token that a
derivation spells, and the expression that it stands for. The main statement is that the grammar is
unambiguous, in the strong sense that no phrase goes on as another one.
-/

namespace ChatLisp.Grammar

mutual

/--
The derivations of what may stand in a list:

  Elem ::= symbol | integer | string | '(' Elem* ')' | '(' Elem+ dot Elem ')' | quote Phrase
-/
inductive Elem where
  | symbol (name : String)
  | integer (value : Int64)
  | string (payload : String)
  | list (elems : Elems)
  | dotted (first : Elem) (more : Elems) (tail : Elem)
  | quoted (phrase : Phrase)

inductive Elems where
  | nil
  | cons (first : Elem) (more : Elems)

/--
The derivations of what may stand alone or behind a quote:

  Phrase ::= dot | Elem
-/
inductive Phrase where
  | dot
  | elem (elem : Elem)

end

mutual

def Elem.kinds : Elem → List TokenKind
  | .symbol name => [.symbol name]
  | .integer value => [.integer value]
  | .string payload => [.string payload]
  | .list elems => .leftParen :: (elems.kinds ++ [.rightParen])
  | .dotted first more tail =>
    .leftParen :: (first.kinds ++ (more.kinds ++ .dot :: (tail.kinds ++ [.rightParen])))
  | .quoted phrase => .quote :: phrase.kinds

def Elems.kinds : Elems → List TokenKind
  | .nil => []
  | .cons first more => first.kinds ++ more.kinds

def Phrase.kinds : Phrase → List TokenKind
  | .dot => [.dot]
  | .elem elem => elem.kinds

end

mutual

def Elem.expr : Elem → Expr
  | .symbol name => .symbol name
  | .integer value => .integer value
  | .string payload => .string payload
  | .list elems => .ofList elems.exprs
  | .dotted first more tail => .ofListWithTail (first.expr :: more.exprs) tail.expr
  | .quoted phrase => .quoted phrase.expr

def Elems.exprs : Elems → List Expr
  | .nil => []
  | .cons first more => first.expr :: more.exprs

def Phrase.expr : Phrase → Expr
  | .dot => .dot
  | .elem elem => elem.expr

end

def Elems.concat : Elems → Elem → Elems
  | .nil, elem => .cons elem .nil
  | .cons first more, elem => .cons first (more.concat elem)

@[simp]
theorem Elems.kinds_concat (elems : Elems) (elem : Elem) :
    (elems.concat elem).kinds = elems.kinds ++ elem.kinds := by
  fun_induction Elems.concat elems elem with
  | case1 => simp [Elems.kinds]
  | case2 first more elem ih => simp [Elems.kinds, ih]

@[simp]
theorem Elems.exprs_concat (elems : Elems) (elem : Elem) :
    (elems.concat elem).exprs = elems.exprs ++ [elem.expr] := by
  fun_induction Elems.concat elems elem with
  | case1 => rfl
  | case2 first more elem ih => simp [Elems.exprs, ih]

/--
The tokens are those of the phrases, one phrase after the other.
-/
def Spells (phrases : List Phrase) (tokens : List Token) : Prop :=
  tokens.map Token.kind = phrases.flatMap Phrase.kinds

/--
The kinds of token that end the elements of a list.
-/
def EndsElems (kind : TokenKind) : Prop :=
  kind = .rightParen ∨ kind = .dot

theorem Elem.exists_kinds_eq_cons (elem : Elem) :
    ∃ kind kinds, elem.kinds = kind :: kinds ∧ ¬ EndsElems kind := by
  cases elem with
  | _ => simp [Elem.kinds, EndsElems]

theorem Elem.kinds_append_ne_cons (elem : Elem) {kind : TokenKind} (hkind : EndsElems kind)
    (ks ls : List TokenKind) :
    elem.kinds ++ ks ≠ kind :: ls := by
  obtain ⟨first, kinds, hkinds, hfirst⟩ := elem.exists_kinds_eq_cons
  rw [hkinds]
  rintro ⟨⟩
  exact hfirst hkind

theorem Phrase.kinds_ne_nil (phrase : Phrase) : phrase.kinds ≠ [] := by
  cases phrase with
  | dot => simp [Phrase.kinds]
  | elem elem =>
    obtain ⟨first, kinds, hkinds, _⟩ := elem.exists_kinds_eq_cons
    simp [Phrase.kinds, hkinds]

mutual

theorem Elem.kinds_append_inj (a b : Elem) (ks ls : List TokenKind)
    (h : a.kinds ++ ks = b.kinds ++ ls) :
    a = b ∧ ks = ls := by
  match a with
  | .symbol name => cases b <;> simp_all [Elem.kinds]
  | .integer value => cases b <;> simp_all [Elem.kinds]
  | .string payload => cases b <;> simp_all [Elem.kinds]
  | .list elems =>
    cases b with
    | list elems' =>
      simp only [Elem.kinds, List.cons_append, List.append_assoc, List.cons.injEq, true_and] at h
      have := Elems.kinds_append_inj elems elems' _ _ (.inl rfl) (.inl rfl) h
      simp_all
    | dotted first more tail =>
      simp only [Elem.kinds, List.cons_append, List.append_assoc, List.cons.injEq, true_and] at h
      rw [← List.append_assoc first.kinds] at h
      have := Elems.kinds_append_inj elems (.cons first more) _ _ (.inl rfl) (.inr rfl) h
      simp_all
    | _ => simp [Elem.kinds] at h
  | .dotted first more tail =>
    cases b with
    | list elems =>
      -- The elements of the one list end in a dot, those of the other in a parenthesis.
      simp only [Elem.kinds, List.cons_append, List.append_assoc, List.cons.injEq, true_and] at h
      cases elems with
      | nil => exact absurd h (first.kinds_append_ne_cons (.inl rfl) _ _)
      | cons first' more' =>
        simp only [Elems.kinds, List.append_assoc] at h
        obtain ⟨_, h⟩ := Elem.kinds_append_inj first first' _ _ h
        have := Elems.kinds_append_inj more more' _ _ (.inr rfl) (.inl rfl) h
        simp_all
    | dotted first' more' tail' =>
      simp only [Elem.kinds, List.cons_append, List.append_assoc, List.cons.injEq, true_and] at h
      obtain ⟨hfirst, h⟩ := Elem.kinds_append_inj first first' _ _ h
      obtain ⟨hmore, _, h⟩ := Elems.kinds_append_inj more more' _ _ (.inr rfl) (.inr rfl) h
      obtain ⟨htail, h⟩ := Elem.kinds_append_inj tail tail' _ _ h
      simp_all
    | _ => simp [Elem.kinds] at h
  | .quoted phrase =>
    cases b with
    | quoted phrase' =>
      simp only [Elem.kinds, List.cons_append, List.cons.injEq, true_and] at h
      have := Phrase.kinds_append_inj phrase phrase' _ _ h
      simp_all
    | _ => simp [Elem.kinds] at h

theorem Elems.kinds_append_inj (a b : Elems) {k l : TokenKind} (ks ls : List TokenKind)
    (hk : EndsElems k) (hl : EndsElems l) (h : a.kinds ++ k :: ks = b.kinds ++ l :: ls) :
    a = b ∧ k = l ∧ ks = ls := by
  match a, b with
  | .nil, .nil => simpa [Elems.kinds] using h
  | .nil, .cons first more =>
    simp only [Elems.kinds, List.append_assoc] at h
    exact absurd h.symm (first.kinds_append_ne_cons hk _ _)
  | .cons first more, .nil =>
    simp only [Elems.kinds, List.append_assoc] at h
    exact absurd h (first.kinds_append_ne_cons hl _ _)
  | .cons first more, .cons first' more' =>
    simp only [Elems.kinds, List.append_assoc] at h
    obtain ⟨hfirst, h⟩ := Elem.kinds_append_inj first first' _ _ h
    have := Elems.kinds_append_inj more more' _ _ hk hl h
    simp_all

/--
No phrase is a proper front part of another one.
-/
theorem Phrase.kinds_append_inj (a b : Phrase) (ks ls : List TokenKind)
    (h : a.kinds ++ ks = b.kinds ++ ls) :
    a = b ∧ ks = ls := by
  match a, b with
  | .dot, .dot => simpa [Phrase.kinds] using h
  | .dot, .elem elem => exact absurd h.symm (elem.kinds_append_ne_cons (.inr rfl) _ _)
  | .elem elem, .dot => exact absurd h (elem.kinds_append_ne_cons (.inr rfl) _ _)
  | .elem elem, .elem elem' =>
    have := Elem.kinds_append_inj elem elem' _ _ h
    simp_all

end

theorem Spells.unique {a b : List Phrase} {tokens : List Token} (ha : Spells a tokens)
    (hb : Spells b tokens) :
    a = b := by
  unfold Spells at ha hb
  rw [ha] at hb
  clear ha
  induction a generalizing b with
  | nil =>
    cases b with
    | nil => rfl
    | cons phrase b => simp [phrase.kinds_ne_nil] at hb
  | cons phrase a ih =>
    cases b with
    | nil => simp [phrase.kinds_ne_nil] at hb
    | cons phrase' b =>
      simp only [List.flatMap_cons] at hb
      obtain ⟨hphrase, hb⟩ := phrase.kinds_append_inj phrase' _ _ hb
      rw [hphrase, ih hb]

end ChatLisp.Grammar
