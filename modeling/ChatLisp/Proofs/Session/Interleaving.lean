import ChatLisp.Proofs.Program.Agreement

/-!
This module contains the independence of sessions that share a store. However their runs are
interleaved, each session gets the answers that it gets alone.
-/

namespace ChatLisp

namespace Program

/--
Evaluate texts in turn, each in the scope given with it. The answers are listed with these scopes.
-/
def answers (depth : Nat) :
    List (ScopeId × String) → Store → List (ScopeId × Option (Except String String))
  | [], _ => []
  | (scope, text) :: runs, store =>
    let run := Program.run depth text scope store
    (scope, run.outcome.answer? ProgramError.message) :: answers depth runs run.store

theorem filter_answers {p : Pairing} {store store' : Store} {scope : ScopeId}
    (hpaired : store.Paired p store') (htwin : p.twin scope scope) (hnames : p.names = Set.univ)
    (depth : Nat) {runs : List (ScopeId × String)}
    (hruns : ∀ run ∈ runs, run.1 = scope ∨ run.1 ∈ p.foreign) :
    (answers depth runs store').filter (·.1 = scope) =
      answers depth (runs.filter (·.1 = scope)) store := by
  induction runs generalizing p store store' with
  | nil => rfl
  | cons run runs ih =>
    obtain ⟨other, text⟩ := run
    obtain ⟨hrun, hruns⟩ := List.forall_mem_cons.mp hruns
    rw [answers]
    by_cases hother : other = scope
    . subst hother
      have hwithin : ∀ name ∈ symbols text, name ∈ p.names := by simp [hnames]
      obtain ⟨hanswer, q, hpq, hnext⟩ := run_agree hpaired htwin hwithin depth
      rw [← hpq.foreign_eq] at hruns
      have hrest := ih hnext (hpq.twin htwin) (hpq.names_eq.trans hnames) hruns
      rw [List.filter_cons_of_pos (by simp), List.filter_cons_of_pos (by simp), answers, hanswer,
        hrest]
    -- A foreign scope has no part in the pairing, so its runs may change what they like there.
    . have hforeign : other ∈ p.foreign := hrun.resolve_left hother
      have hlt := hpaired.foreign_lt other hforeign
      have hnext : store.Paired p (run depth text other store').store :=
        paired_run hpaired hlt (.inl hforeign) depth
      rw [List.filter_cons_of_neg (by simpa using hother),
        List.filter_cons_of_neg (by simpa using hother)]
      exact ih hnext htwin hnames hruns

/--
In a store with any number of new global scopes, texts are run in these scopes in any order. The
answers in each of the scopes are those of its own texts when they are run alone.
-/
theorem interleaved_answers (depth : Nat) {store : Store} {runs : List (ScopeId × String)}
    (hruns : ∀ run ∈ runs, store.IsGlobal run.1) {scope : ScopeId} (hscope : store.IsGlobal scope) :
    (answers depth runs store).filter (·.1 = scope) =
      answers depth (runs.filter (·.1 = scope)) store := by
  let others := {other | other ≠ scope ∧ other < store.frames.size}
  have hscope_others : scope ∉ others := fun h => h.1 rfl
  let p := Pairing.single Set.univ others scope scope hscope_others
  have hpaired : store.Paired p store :=
    Store.Paired.single_global Set.univ hscope_others hscope hscope fun _ hother => hother.2
  apply filter_answers hpaired ⟨rfl, rfl⟩ rfl
  intro run hrun
  by_cases heq : run.1 = scope
  . exact .inl heq
  . exact .inr ⟨heq, (hruns run hrun).lt_size⟩

theorem interleaved_answers_two :
    let store := Store.empty.addGlobal.addGlobal
    let runs := [(0, "(setq f (lambda (y) (list x y)))"), (1, "(setq x 1)"), (0, "(setq x 2)"),
      (1, "(list x)"), (0, "(f x)")]
    (∀ run ∈ runs, store.IsGlobal run.1) ∧ store.IsGlobal 0 ∧
    (answers 6 runs store).filter (·.1 = 0) = answers 6 (runs.filter (·.1 = 0)) store ∧
    answers 6 (runs.filter (·.1 = 0)) store =
      [(0, some (.ok "<lambda function>")), (0, some (.ok "2")), (0, some (.ok "(2 2)"))] := by
  intro store runs
  have hzero : store.IsGlobal 0 := (Store.isGlobal_addGlobal Store.empty).addGlobal
  have hone : store.IsGlobal 1 := Store.isGlobal_addGlobal Store.empty.addGlobal
  have hruns : ∀ run ∈ runs, store.IsGlobal run.1 := by
    simp only [runs, List.forall_mem_cons]
    exact ⟨hzero, hone, hzero, hone, hzero, nofun⟩
  refine ⟨hruns, hzero, interleaved_answers 6 hruns hzero, ?_⟩
  cbv

end Program

end ChatLisp
