import ChatLisp.Proofs.Program.Agreement
import ChatLisp.Session

/-!
This module contains the messages that go unnoticed in a session. A message whose assignments are to
names that no other message mentions changes none of the other replies, wherever it is put in and
however it ends.
-/

namespace ChatLisp

namespace Session

theorem reply_trigger (session : Session) (depth : Nat) (message : String) :
    (session.trigger depth message).reply =
      ((Program.run depth message session.scope session.store).outcome.answer?
        ProgramError.message).map fun | .ok text => text | .error text => text := by
  simp only [trigger]
  cases (Program.run depth message session.scope session.store).outcome <;> rfl

theorem session_trigger (session : Session) (depth : Nat) (message : String) :
    (session.trigger depth message).session =
      ⟨(Program.run depth message session.scope session.store).store, session.scope⟩ := by
  simp only [trigger]
  cases (Program.run depth message session.scope session.store).outcome <;> rfl

/--
The replies to messages that are triggered in turn.
-/
def replies (session : Session) (depth : Nat) (messages : List String) : List (Option String) :=
  (session.triggerAll depth messages).map Exchange.reply

@[simp]
theorem replies_nil (session : Session) (depth : Nat) : session.replies depth [] = [] :=
  rfl

@[simp]
theorem replies_cons (session : Session) (depth : Nat) (message : String)
    (messages : List String) :
    session.replies depth (message :: messages) =
      (session.trigger depth message).reply ::
        (session.trigger depth message).session.replies depth messages :=
  rfl

@[simp]
theorem length_replies (session : Session) (depth : Nat) (messages : List String) :
    (session.replies depth messages).length = messages.length := by
  induction messages generalizing session with
  | nil => rfl
  | cons message messages ih => simp [ih]

/--
The replies that the host of a session gets, who sees the messages marked with `false` and their
replies only. All others are those of guests.
-/
def hostReplies (session : Session) (depth : Nat) :
    List (Bool × String) → List (Option String)
  | [] => []
  | (isGuest, message) :: rest =>
    let exchange := session.trigger depth message
    let replies := exchange.session.hostReplies depth rest
    if isGuest then replies else exchange.reply :: replies

def hostMessages (messages : List (Bool × String)) : List String :=
  (messages.filter fun message => !message.1).map Prod.snd

/--
Sessions in paired stores, whose global scopes play the same part.
-/
structure Paired (p : Pairing) (session session' : Session) : Prop where
  store : session.store.Paired p session'.store
  twin : p.twin session.scope session'.scope

namespace Paired

variable {p : Pairing} {session session' : Session} {message : String}

theorem trigger (h : session.Paired p session')
    (hhost : ∀ name ∈ Program.symbols message, name ∈ p.names) (depth : Nat) :
    (session'.trigger depth message).reply = (session.trigger depth message).reply ∧
    ∃ q, p.Extends q ∧ (session.trigger depth message).session.Paired q
      (session'.trigger depth message).session := by
  obtain ⟨hanswer, q, hpq, hstore⟩ := Program.run_agree h.store h.twin hhost depth
  rw [reply_trigger, reply_trigger, hanswer, session_trigger, session_trigger]
  exact ⟨rfl, q, hpq, hstore, hpq.twin h.twin⟩

theorem trigger_guest (h : session.Paired p session')
    (hguest : ∀ name ∈ Program.exposed message, name ∉ p.names) (depth : Nat) :
    session.Paired p (session'.trigger depth message).session := by
  have hscope := (h.store.twin_lt h.twin).2
  rw [session_trigger]
  exact ⟨Program.paired_run h.store hscope (.inr hguest) depth, h.twin⟩

/--
Guests whose assignments are to names that the host does not look up leave the host's replies as
they are in a session without guests.
-/
theorem hostReplies_eq (h : session.Paired p session') (depth : Nat)
    {messages : List (Bool × String)}
    (hhost : ∀ message ∈ hostMessages messages, ∀ name ∈ Program.symbols message, name ∈ p.names)
    (hguest : ∀ message, (true, message) ∈ messages →
      ∀ name ∈ Program.exposed message, name ∉ p.names) :
    session'.hostReplies depth messages = session.replies depth (hostMessages messages) := by
  induction messages generalizing p session session' with
  | nil => rfl
  | cons message messages ih =>
    obtain ⟨isGuest, message⟩ := message
    have hguests : ∀ message, (true, message) ∈ messages →
        ∀ name ∈ Program.exposed message, name ∉ p.names :=
      fun other hother => hguest other (List.mem_cons_of_mem _ hother)
    cases isGuest with
    | true =>
      have hnext := h.trigger_guest (hguest message List.mem_cons_self) depth
      exact ih hnext hhost hguests
    | false =>
      have hhosts := List.forall_mem_cons.mp hhost
      obtain ⟨hreply, q, hpq, hnext⟩ := h.trigger hhosts.1 depth
      rw [← hpq.names_eq] at hhosts hguests
      exact congrArg₂ List.cons hreply (ih hnext hhosts.2 hguests)

end Paired

theorem hostReplies_map_false (session : Session) (depth : Nat) (messages : List String) :
    session.hostReplies depth (messages.map (false, ·)) = session.replies depth messages := by
  induction messages generalizing session with
  | nil => rfl
  | cons message messages ih => exact congrArg _ (ih _)

theorem hostReplies_insertion (session : Session) (depth : Nat) (before after : List String)
    (guest : String) :
    session.hostReplies depth (before.map (false, ·) ++ (true, guest) :: after.map (false, ·)) =
      (session.replies depth (before ++ guest :: after)).eraseIdx before.length := by
  induction before generalizing session with
  | nil => exact hostReplies_map_false _ depth after
  | cons message before ih => exact congrArg _ (ih _)

theorem hostReplies_marked (session : Session) (depth : Nat) (guest : String)
    (messages : List String) :
    session.hostReplies depth (messages.map fun message => (message = guest, message)) =
      ((messages.zip (session.replies depth messages)).filter (·.1 ≠ guest)).map Prod.snd := by
  induction messages generalizing session with
  | nil => rfl
  | cons message messages ih =>
    by_cases heq : message = guest
    . simp [hostReplies, heq, ih]
    . simp [hostReplies, heq, ih]

theorem start_paired_start (names : Set String) :
    start.Paired (.single names ∅ start.scope start.scope (Set.notMem_empty _)) start := by
  constructor
  . apply Store.Paired.single_global
    . rfl
    . rfl
    . simp
  . exact ⟨rfl, rfl⟩

/--
A message put in anywhere among others leaves their replies as they are, if the names that it
assigns, if any, occur in none of the others. A message that assigns nothing may be put in any
number of times.
-/
theorem guest_unnoticed (depth : Nat) (guest : String) :
    (∀ before after : List String,
      (∀ name ∈ Program.exposed guest, ∀ message ∈ before ++ after,
        name ∉ Program.symbols message) →
      (start.replies depth (before ++ guest :: after)).eraseIdx before.length =
        start.replies depth (before ++ after)) ∧
    (Program.exposed guest = [] → ∀ messages : List String,
      ((messages.zip (start.replies depth messages)).filter (·.1 ≠ guest)).map Prod.snd =
        start.replies depth (messages.filter (· ≠ guest))) := by
  constructor
  . intro before after hunrelated
    let names := {name | ∃ message ∈ before ++ after, name ∈ Program.symbols message}
    have hmessages : hostMessages (before.map (false, ·) ++ (true, guest) :: after.map (false, ·)) =
        before ++ after := by
      simp [hostMessages, List.filter_map, Function.comp_def]
    rw [← hostReplies_insertion, ← hmessages]
    apply (start_paired_start names).hostReplies_eq
    . rw [hmessages]
      exact fun message hmem name hname => ⟨message, hmem, hname⟩
    . intro message hmem name hname
      obtain rfl : message = guest := by simpa using hmem
      rintro ⟨other, hother, hsymbol⟩
      exact hunrelated name hname other hother hsymbol
  . intro hnone messages
    have hmessages : hostMessages (messages.map fun message => (message = guest, message)) =
        messages.filter (· ≠ guest) := by
      simp [hostMessages, List.filter_map, Function.comp_def]
    rw [← hostReplies_marked, ← hmessages]
    apply (start_paired_start Set.univ).hostReplies_eq
    . exact fun _ _ name _ => Set.mem_univ name
    . intro message hmem name hname
      obtain ⟨_, rfl⟩ : message ∈ messages ∧ message = guest := by simpa using hmem
      simp [hnone] at hname

theorem guest_unnoticed_failing :
    let before := ["(setq f (lambda (x) (setq y x)))"]
    let after := ["(f 1)"]
    let guest := "(setq g (f 3)) (car g)"
    let idle := "(f 3)"
    let messages := before ++ idle :: after ++ [idle]
    (∀ name ∈ Program.exposed guest, ∀ message ∈ before ++ after,
      name ∉ Program.symbols message) ∧
    (start.replies 6 (before ++ guest :: after)).eraseIdx before.length =
      start.replies 6 (before ++ after) ∧
    Program.exposed idle = [] ∧
    ((messages.zip (start.replies 6 messages)).filter (·.1 ≠ idle)).map Prod.snd =
      start.replies 6 (messages.filter (· ≠ idle)) ∧
    start.replies 6 (before ++ after) = [some "<lambda function>", some "1"] := by
  intro before after guest idle messages
  have hexposed : Program.exposed guest = ["g"] := by cbv
  have hsymbols : (before ++ after).flatMap Program.symbols =
      ["setq", "f", "lambda", "x", "setq", "y", "x", "f"] := by
    cbv
  have hunrelated : ∀ name ∈ Program.exposed guest, ∀ message ∈ before ++ after,
      name ∉ Program.symbols message := by
    intro name hname message hmessage hsymbol
    have hmem := List.mem_flatMap_of_mem hmessage hsymbol
    rw [hsymbols] at hmem
    rw [hexposed] at hname
    clear hsymbol
    revert name
    decide
  have hidle : Program.exposed idle = [] := by cbv
  have hguest := (guest_unnoticed 6 guest).1 before after hunrelated
  refine ⟨hunrelated, hguest, hidle, (guest_unnoticed 6 idle).2 hidle messages, ?_⟩
  cbv

end Session

end ChatLisp
