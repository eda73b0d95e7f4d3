import ChatLisp.Proofs.Eval.Agreement

/-!
This module contains the agreement of programs in paired stores. A text that is run in both of them
gets the same answer, and a text that is run in the second one only leaves the stores paired, as
long as it assigns no name that is looked up.
-/

namespace ChatLisp

theorem StoreM.answer?_mapError (action : StoreM EvalError Expr) (store : Store) :
    (action.mapError ProgramError.eval store).outcome.answer? ProgramError.message =
      ((action store).outcome.answer? EvalError.message).map
        (Except.mapError ("EvalError: " ++ ·)) := by
  rw [outcome_mapError]
  cases (action store).outcome <;> rfl

namespace Program

open StoreM

/--
The expressions of a text, none if the text is refused.
-/
def exprs (text : String) : List Expr :=
  match parse text with
  | .ok exprs => exprs
  | .error _ => []

def symbols (text : String) : List String :=
  (exprs text).flatMap Expr.symbols

def exposed (text : String) : List String :=
  (exprs text).flatMap Expr.exposed

theorem run_cases (depth : Nat) (text : String) :
    (∃ e, ∀ scope store, (run depth text scope store).outcome = .error e ∧
      (run depth text scope store).store = store) ∨
    (∀ e ∈ exprs text, e.IsPhrase) ∧ ∀ scope store,
      let values := (Eval.sequence (evaluate depth) scope (exprs text)).mapError ProgramError.eval
      (run depth text scope store).outcome = (values store).outcome ∧
        (run depth text scope store).store = (values store).store := by
  unfold run
  cases htokens : tokenize text with
  | error e => exact .inl ⟨_, fun _ _ => ⟨rfl, rfl⟩⟩
  | ok tokens =>
    cases hread : Parser.readAll tokens with
    | error e =>
      left
      simp only [hread]
      exact ⟨_, fun _ _ => ⟨rfl, rfl⟩⟩
    | ok read =>
      cases read with
      | nil =>
        left
        simp only [hread]
        exact ⟨_, fun _ _ => ⟨rfl, rfl⟩⟩
      | cons e read =>
        have hparse : parse text = .ok (e :: read) := parse_eq_ok_iff.mpr ⟨tokens, htokens, hread⟩
        have hexprs : exprs text = e :: read := by rw [exprs, hparse]
        right
        simp only [hread, hexprs]
        refine ⟨isPhrase_of_parse hparse, ?_⟩
        intro scope store
        simp only [runExprs, store_bind, outcome_bind]
        exact ⟨rfl, rfl⟩

end Program

theorem Eval.Change.run {R : ScopeId → Store → Store → Prop} (hR : Change R) (depth : Nat)
    (text : String) (scope : ScopeId) :
    (Program.run depth text scope).Changes (R scope) := by
  intro store
  obtain ⟨_, hrun⟩ | ⟨_, hrun⟩ := Program.run_cases depth text
  . rw [(hrun scope store).2]
    apply hR.refl
  . rw [(hrun scope store).2, StoreM.store_mapError]
    apply hR.sequence
    intro e
    apply hR.evaluate

namespace Store

/--
All scopes of `before` are still there, and each lies in the scope that it lay in.
-/
structure SameOuters (before after : Store) : Prop where
  size_le : before.frames.size ≤ after.frames.size
  outer?_eq : ∀ scope < before.frames.size, after.outer? scope = before.outer? scope

theorem SameOuters.trans {a b c : Store} (hab : a.SameOuters b) (hbc : b.SameOuters c) :
    a.SameOuters c := by
  constructor
  . exact Nat.le_trans hab.size_le hbc.size_le
  . intro scope hscope
    rw [hbc.outer?_eq scope (Nat.lt_of_lt_of_le hscope hab.size_le), hab.outer?_eq scope hscope]

theorem sameOuters_enclose (store : Store) (outer : ScopeId) :
    store.SameOuters (store.enclose outer) := by
  constructor
  . simp
  . intro scope hscope
    exact outer?_enclose outer hscope

theorem change_sameOuters : Eval.Change fun _ => SameOuters where
  refl _ _ := ⟨Nat.le_refl _, fun _ _ => rfl⟩
  trans _ _ _ _ := SameOuters.trans
  define scope store name value := by
    constructor
    . simp
    . intro other _
      exact outer?_define store scope other name value
  count _ _ := ⟨Nat.le_refl _, fun _ _ => rfl⟩
  enclose _ outer store _ h := (sameOuters_enclose store outer).trans h

end Store

namespace Program

open StoreM

variable {p : Pairing} {store store' : Store} {scope scope' : ScopeId} {text : String}

theorem own?_run (hscope : scope < store.frames.size) {name : String}
    (hname : name ∉ exposed text) (depth : Nat) :
    (run depth text scope store).store.own? scope name = store.own? scope name := by
  obtain ⟨_, hrun⟩ | ⟨hphrases, hrun⟩ := run_cases depth text
  . rw [(hrun scope store).2]
  . rw [(hrun scope store).2, store_mapError]
    have hassigns : (Eval.sequence (evaluate depth) scope (exprs text)).Assigns scope
        (exposed text) := by
      apply Eval.assigns_sequence
      intro e he
      exact Eval.assigns_evaluate depth (hphrases e he)
    exact (hassigns store hscope).same name hname

/--
A text gets the same answer in scopes that play the same part.
-/
theorem run_agree (hpaired : store.Paired p store') (htwin : p.twin scope scope')
    (hwithin : ∀ name ∈ symbols text, name ∈ p.names) (depth : Nat) :
    (run depth text scope' store').outcome.answer? ProgramError.message =
      (run depth text scope store).outcome.answer? ProgramError.message ∧
    ∃ q, p.Extends q ∧
      (run depth text scope store).store.Paired q (run depth text scope' store').store := by
  obtain ⟨e, hrun⟩ | ⟨hphrases, hrun⟩ := run_cases depth text
  . rw [(hrun scope store).1, (hrun scope store).2, (hrun scope' store').1, (hrun scope' store').2]
    exact ⟨rfl, p, .refl p, hpaired⟩
  . rw [(hrun scope store).1, (hrun scope store).2, (hrun scope' store').1, (hrun scope' store').2]
    have hready : List.Forall₂ (p.Ready scope scope') (exprs text) (exprs text) := by
      rw [List.forall₂_same]
      intro e he
      constructor
      . exact p.link_of_twin htwin
      . exact (hphrases e he).alike p.names p.link
      . intro name hname
        exact hwithin name (List.mem_flatMap_of_mem he hname)
      . exact .inl htwin
    obtain ⟨q, hpq, hpaired, hend⟩ :=
      Eval.agree_sequence (Eval.agrees_evaluate depth) hready store store' hpaired
    rw [answer?_mapError, answer?_mapError, hend.answer?_eq, store_mapError, store_mapError]
    exact ⟨rfl, q, hpq, hpaired⟩

theorem paired_run (hpaired : store.Paired p store') (hscope : scope < store'.frames.size)
    (hguest : scope ∈ p.foreign ∨ ∀ name ∈ exposed text, name ∉ p.names) (depth : Nat) :
    store.Paired p (run depth text scope store').store := by
  have houtside := Eval.change_sameOutside.run depth text scope store'
  have houters := Store.change_sameOuters.run depth text scope store'
  apply hpaired.of_change houters.size_le
  -- Of the scopes that were there before, only that of the run itself can have changed.
  . intro a b hab name hname
    by_cases hb : b = scope
    . subst hb
      apply own?_run hscope
      intro hexposed
      obtain hforeign | hnames := hguest
      . exact p.not_foreign hab hforeign
      . exact hnames name hexposed hname
    . rw [Store.own?, Store.own?, houtside.frame_eq b (hpaired.twin_lt hab).2 hb]
  . exact houters.outer?_eq

end Program

end ChatLisp
