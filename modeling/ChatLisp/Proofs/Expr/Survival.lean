import ChatLisp.Proofs.Parser.RoundTrip

/-!
This module contains the expressions that survive printing, which are those that are read back as
they were. All others print as a text that is refused, or as one that means something else: closures
and native functions have no syntax, `t` and loose empty lists come back as symbols.
-/

namespace ChatLisp

namespace Expr

/--
The expressions that are read back as they were when they are printed in the given position. Apart
from these, the dot survives on its own.
-/
def Survives (position : Position) : Expr → Prop
  | integer value => 0 ≤ value.toInt
  | string _ => True
  | symbol name => isSymbolName name.toList
  | nil => position = .tail
  | cons car cdr => car.Survives .item ∧ cdr.Survives .tail
  | quoted inner => inner = dot ∨ inner.Survives .item
  | _ => False

theorem survives_iff (position : Position) (e : Expr) :
    e.Survives position ↔ e.IsElem ∧ e.hasLooseNil position = false := by
  induction e generalizing position with
  | nil => cases position <;> simp [Survives, IsElem, hasLooseNil]
  | cons car cdr hcar hcdr =>
    simp only [Survives, IsElem, hasLooseNil, hcar, hcdr, Bool.or_eq_false_iff]
    exact and_and_and_comm
  | quoted inner ih =>
    simp only [Survives, IsElem, hasLooseNil, ih]
    constructor
    . rintro (rfl | ⟨helem, hloose⟩)
      . exact ⟨.inl rfl, rfl⟩
      . exact ⟨.inr helem, hloose⟩
    . rintro ⟨rfl | helem, hloose⟩
      . exact .inl rfl
      . exact .inr ⟨helem, hloose⟩
  | _ => simp [Survives, IsElem, hasLooseNil]

theorem IsElem.eq_of_beq {e e' : Expr} (h : e.IsElem) (hbeq : e.beq e') : e = e' := by
  induction e generalizing e' with
  | cons car cdr hcar hcdr =>
    cases e' <;> simp only [Expr.beq, Bool.false_eq_true, Bool.and_eq_true] at hbeq
    rw [hcar h.1 hbeq.1, hcdr h.2 hbeq.2]
  | quoted inner ih =>
    cases e' <;> simp only [Expr.beq, Bool.false_eq_true] at hbeq
    next inner' =>
      obtain rfl | h := h
      . cases inner' <;> simp_all [Expr.beq]
      . rw [ih h hbeq]
  | _ => cases e' <;> simp_all [Expr.beq, IsElem]

theorem IsPhrase.eq_of_beq {e e' : Expr} (h : e.IsPhrase) (hbeq : e.beq e') : e = e' := by
  obtain rfl | h := h
  . cases e' <;> simp_all [Expr.beq]
  . exact h.eq_of_beq hbeq

theorem IsPhrase.parse_print {e : Expr} (h : e.IsPhrase) :
    parse e.print = .ok [e.nameNils .item] := by
  obtain ⟨phrase, hphrase⟩ := h.exists_prints
  have hlexes : Lexes e.print.toList ([phrase].flatMap Grammar.Phrase.kinds) := by
    have hkinds := hphrase.lexes _ _ breaks_nil Lexes.nil
    simpa using hkinds
  rw [parse_of_lexes hlexes, List.map_singleton, hphrase.expr_eq]

end Expr

/--
Printing an expression and reading the text gives an equal expression, and nothing besides it, for
exactly the expressions that survive.
-/
theorem parse_print_iff (e : Expr) :
    (∃ e', parse e.print = .ok [e'] ∧ e' == e) ↔ e = .dot ∨ e.Survives .item := by
  have hreadable : (e = .dot ∨ e.Survives .item) ↔
      e.IsPhrase ∧ e.hasLooseNil .item = false := by
    rw [Expr.survives_iff, Expr.IsPhrase, or_and_right]
    refine or_congr_left ⟨?_, And.left⟩
    rintro rfl
    exact ⟨rfl, rfl⟩
  rw [hreadable]
  constructor
  . rintro ⟨e', hparse, hbeq⟩
    have hphrase : e'.IsPhrase := isPhrase_of_parse hparse e' List.mem_cons_self
    obtain rfl := hphrase.eq_of_beq hbeq
    -- The round trip says what is read, so what was read must have its empty lists in place.
    rw [hphrase.parse_print] at hparse
    have hnames : e'.nameNils .item = e' := by simpa using hparse
    exact ⟨hphrase, (e'.nameNils_eq_self_iff .item).mp hnames⟩
  . rintro ⟨hphrase, hloose⟩
    have hnames := (e.nameNils_eq_self_iff .item).mpr hloose
    refine ⟨e, ?_, e.beq_self⟩
    rw [hphrase.parse_print, hnames]

end ChatLisp
