import ChatLisp.Proofs.Expr.Renaming
import ChatLisp.Proofs.Expr.Rereading
import ChatLisp.Proofs.Expr.Survival
import ChatLisp.Proofs.Program.Joining
import ChatLisp.Proofs.Session.Natives

/-!
This module contains the replies that are pasted behind a quote, to be had as data again. The
symbols in a value all come from texts, since no function makes symbols, and so the printed form of
data is a text that can be read.
-/

namespace ChatLisp

namespace Expr

theorem isElem_nameAtoms {e : Expr} (hgenuine : e.Genuine .value) (hspelled : e.Spelled)
    (hdata : e.holdsFunction = false) (hdots : e.DotsQuoted) :
    e.nameAtoms.IsElem := by
  induction e with
  | integer value =>
    rw [nameAtoms]
    split
    . next hneg => exact isSymbolName_of_neg hneg
    . next hpos => exact Int.not_lt.mp hpos
  | string _ => trivial
  | symbol _ => exact hspelled
  | t =>
    have hname : isSymbolName "t".toList := by decide
    exact hname
  | nil => trivial
  | dot => exact absurd hdots id
  | cons car cdr hcar hcdr =>
    rw [holdsFunction, Bool.or_eq_false_iff] at hdata
    constructor
    . exact hcar hgenuine.1 hspelled.1 hdata.1 hdots.1
    . exact hcdr hgenuine.2 hspelled.2 hdata.2 hdots.2
  | quoted inner ih =>
    obtain rfl | hdots := hdots
    . exact .inl rfl
    . exact .inr (ih hgenuine hspelled hdata hdots)
  | closure _ _ _ _ => cases hdata
  | native _ => cases hdata
  | sequence _ => cases (genuine_sequence.mp hgenuine).1

theorem isPhrase_nameAtoms {e : Expr} (hgenuine : e.Genuine .value) (hspelled : e.Spelled)
    (hdata : e.holdsFunction = false) (hdots : e = dot ∨ e.DotsQuoted) :
    e.nameAtoms.IsPhrase := by
  obtain rfl | hdots := hdots
  . exact .inl rfl
  . exact .inr (isElem_nameAtoms hgenuine hspelled hdata hdots)

end Expr

namespace Eval

/--
No symbols are known of but those with a symbol's name, and no other name is bound.
-/
def Invariant.spelling : Invariant where
  Code _ e := e.Spelled
  Value e := e.Spelled
  Name name := isSymbolName name.toList
  Applied _ _ := True
  MayGiveUp := True
  giveUp _ := trivial
  atom h _ := h
  quoted h := h
  member h := Expr.spelled_sequence.mp h
  operator h := h.1
  operand h hitems := Expr.forall_of_items? id h.2 hitems
  closure h hitems hnames hexprs _ _ := by
    obtain ⟨_, hparams, hbody⟩ := h
    constructor
    . intro name hname
      rw [eq_map_symbol_of_paramNames hnames] at hitems
      exact Expr.forall_of_items? id hparams hitems _ (List.mem_map_of_mem hname)
    . exact Expr.spelled_sequence.mpr (Expr.forall_of_items? id hbody hexprs)
  assigned h hitems := Expr.forall_of_items? id h.2 hitems _ List.mem_cons_self
  params h := h.1
  body h _ := h.2
  nil := trivial
  integer _ := trivial
  cons_iff := Iff.rfl
  applied _ _ := trivial

end Eval

namespace Session

open Eval.Invariant

theorem spelled_globals :
    ∀ binding ∈ globalBindings, spelling.Name binding.1 ∧ spelling.Value binding.2 := by
  have hname : ∀ binding ∈ globalBindings, isSymbolName binding.1.toList := by decide
  intro binding hmem
  refine ⟨hname binding hmem, ?_⟩
  revert binding
  simp only [globalBindings, List.forall_mem_cons, List.forall_mem_map]
  exact ⟨trivial, trivial, fun _ _ => trivial⟩

theorem spelled_exprs (message : String) (depth : Nat) :
    ∀ e ∈ Program.exprs message, spelling.Code depth e :=
  fun e he => (Program.isPhrase_exprs message e he).spelled

end Session

namespace Program

open Eval.Invariant

theorem genuine_and_spelled_of_runFresh {depth : Nat} {text : String} {value : Expr}
    (h : (runFresh depth text).outcome = .value value) :
    value.Genuine .value ∧ value.Spelled := by
  have hgenuine : Session.start.Obeys genuineness := Session.obeys_start Session.genuine_globals
  have hspelled : Session.start.Obeys spelling := Session.obeys_start Session.spelled_globals
  constructor
  . exact ((hgenuine.run (Session.genuine_exprs text depth)).value value h).value
  . exact ((hspelled.run (Session.spelled_exprs text depth)).value value h).value

theorem run_zero_ne_value (text : String) (scope : ScopeId) (store : Store) (value : Expr) :
    (run 0 text scope store).outcome ≠ .value value := by
  unfold run
  cases tokenize text with
  | error e => exact nofun
  | ok tokens =>
    dsimp only
    cases Parser.readAll tokens with
    | error e => exact nofun
    | ok exprs =>
      cases exprs with
      | nil => exact nofun
      | cons e rest => cases rest <;> exact nofun

theorem run_quoted {e : Expr} (h : e.IsPhrase) (depth : Nat) (scope : ScopeId) (store : Store) :
    (run (depth + 1) ("'" ++ e.print) scope store).outcome = .value (e.nameNils .item) ∧
      (run (depth + 1) ("'" ++ e.print) scope store).store = store := by
  have hquoted : (Expr.quoted e).IsPhrase := .inr h
  have hparse := hquoted.parse_print
  have hprint : (Expr.quoted e).print = "'" ++ e.print := by
    apply String.toList_inj.mp
    simp [Expr.chars, Expr.Position.lead]
  rw [hprint, Expr.nameNils] at hparse
  obtain ⟨houtcome, hstore, _⟩ :=
    run_eq_values hparse (List.cons_ne_nil _ _) (depth + 1) scope store
  rw [houtcome, hstore]
  exact ⟨rfl, rfl⟩

/--
A value without functions whose dots are in place can be pasted behind a quote, in any scope: the
text evaluates to a value that prints the same and leaves the store as it is. The two values are
equal if there are no negative integers, no `t` and no loose empty lists in the first one.
-/
theorem value_pasted {depth : Nat} {text : String} {value : Expr}
    (hvalue : (runFresh depth text).outcome = .value value) (hdata : value.holdsFunction = false)
    (hdots : value = .dot ∨ value.DotsQuoted) (more : Nat) (scope : ScopeId) (store : Store) :
    let again := run (more + 1) ("'" ++ value.print) scope store
    ∃ back, again.outcome = .value back ∧ again.store = store ∧ back.print = value.print ∧
      (value.hasNamedAtom = false → value.hasLooseNil .item = false → back == value) := by
  obtain ⟨hgenuine, hspelled⟩ := genuine_and_spelled_of_runFresh hvalue
  have hphrase := Expr.isPhrase_nameAtoms hgenuine hspelled hdata hdots
  have hrun := run_quoted hphrase more scope store
  have hprint := value.print_nameAtoms
  rw [hprint] at hrun
  refine ⟨_, hrun.1, hrun.2, (Expr.print_nameNils _).trans hprint, ?_⟩
  intro hatoms hnils
  rw [value.nameAtoms_eq_self_iff.mpr hatoms, (value.nameNils_eq_self_iff .item).mpr hnils]
  exact value.beq_self

/--
The functions and the scopes that a value went through leave nothing behind in it, and the names in
it mean nothing where it is pasted.
-/
theorem value_pasted_computed :
    let text := "((lambda (f x) (cons x (f (- 7 5) '(nil . \"\\n\") ''.))) list 'car)"
    let value : Expr := .ofList [.symbol "car", .integer 2,
      .cons (.symbol "nil") (.string "\n"), .quoted .dot]
    let other := (runFresh 3 "(setq car (lambda () car))").store
    let again := run 1 ("'" ++ value.print) Store.empty.nextScope other
    (runFresh 9 text).outcome = .value value ∧ value.holdsFunction = false ∧
      (value = .dot ∨ value.DotsQuoted) ∧ value.hasNamedAtom = false ∧
      value.hasLooseNil .item = false ∧ value.print = "(car 2 (nil . \"\\n\") '.)" ∧
      ∃ back, again.outcome = .value back ∧ again.store = other ∧ back.print = value.print ∧
        back == value := by
  intro text value other again
  have hvalue : (runFresh 9 text).outcome = .value value := by cbv
  have hdata : value.holdsFunction = false := by decide
  have hdots : value = .dot ∨ value.DotsQuoted := by simp [value, Expr.ofList, Expr.DotsQuoted]
  have hatoms : value.hasNamedAtom = false := by decide
  have hnils : value.hasLooseNil .item = false := by decide
  obtain ⟨back, houtcome, hstore, hprint, hbeq⟩ :=
    value_pasted hvalue hdata hdots 0 Store.empty.nextScope other
  exact ⟨hvalue, hdata, hdots, hatoms, hnils, by cbv, back, houtcome, hstore, hprint,
    hbeq hatoms hnils⟩

/--
A negative integer, `t` and an empty list in a list come back as symbols, and a dot in a list is
refused.
-/
theorem value_not_pasted :
    (runFresh 4 "(- 0 5)").outcome = .value (.integer (-5)) ∧
    (runFresh 4 "t").outcome = .value .t ∧
    (runFresh 4 "(list nil)").outcome = .value (.ofList [.nil]) ∧
    (runFresh 4 "(list '. 1)").outcome = .value (.ofList [.dot, .integer 1]) ∧
    ∀ value ∈ [Expr.integer (-5), .t, .ofList [.nil], .ofList [.dot, .integer 1]],
      value.holdsFunction = false ∧
        ¬ ∃ depth back, (runFresh depth ("'" ++ value.print)).outcome = .value back ∧
          back == value := by
  simp only [List.forall_mem_cons]
  have hneg : ∀ depth, (runFresh (depth + 1) "'-5").outcome = .value (.symbol "-5") := by
    intro depth
    cbv
  have ht : ∀ depth, (runFresh (depth + 1) "'t").outcome = .value (.symbol "t") := by
    intro depth
    cbv
  have hnil : ∀ depth, (runFresh (depth + 1) "'(nil)").outcome =
      .value (.ofList [.symbol "nil"]) := by
    intro depth
    cbv
  have hdot : ∀ depth, (runFresh (depth + 1) "'(. 1)").outcome =
      .error (.parse (.invalidDot ⟨2, 3⟩)) := by
    intro depth
    cbv
  refine ⟨by cbv, by cbv, by cbv, by cbv, ⟨rfl, ?_⟩, ⟨rfl, ?_⟩, ⟨rfl, ?_⟩, ⟨rfl, ?_⟩,
    List.forall_mem_nil _⟩
  all_goals
    rintro ⟨_ | depth, back, houtcome, hbeq⟩
    . exact run_zero_ne_value _ _ _ _ houtcome
  . cases (hneg depth).symm.trans houtcome
    cases hbeq
  . cases (ht depth).symm.trans houtcome
    cases hbeq
  . cases (hnil depth).symm.trans houtcome
    cases hbeq
  . cases (hdot depth).symm.trans houtcome

end Program

end ChatLisp
