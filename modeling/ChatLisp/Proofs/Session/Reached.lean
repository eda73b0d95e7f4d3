import ChatLisp.Proofs.Program.Invariant
import ChatLisp.Proofs.Session.Guests

/-!
This module contains the sessions that can be reached by messages. An invariant that the global
bindings and the expressions of all messages obey is obeyed by the whole store of such a session.
-/

namespace ChatLisp

namespace Session

/--
The sessions that messages of some kind lead to from the start on. A message may be granted any
depth, and one that needs more of it leaves the session where it broke off.
-/
inductive Reached (allowed : String → Prop) : Session → Prop
  | start : Reached allowed start
  | trigger {session : Session} {message : String} (depth : Nat) :
    Reached allowed session → allowed message →
      Reached allowed (session.trigger depth message).session

theorem reply_isSome_iff (session : Session) (depth : Nat) (message : String) :
    (session.trigger depth message).reply.isSome ↔
      (Program.run depth message session.scope session.store).outcome ≠ .outOfFuel := by
  simp only [trigger]
  cases (Program.run depth message session.scope session.store).outcome <;> simp

theorem nativeApplied_mem_trigger (session : Session) (depth : Nat) (message name : String)
    (count : Nat) :
    .nativeApplied name count ∈ (session.trigger depth message).events ↔
      .nativeApplied name count ∈
        (Program.run depth message session.scope session.store).events := by
  -- What a failed message adds to the events is no application of a function.
  simp only [trigger]
  cases (Program.run depth message session.scope session.store).outcome <;> simp

/--
The global scope is in the store, and the store obeys the invariant.
-/
structure Obeys (inv : Eval.Invariant) (session : Session) : Prop where
  scope_lt : session.scope < session.store.frames.size
  store : session.store.Obeys inv

variable {inv : Eval.Invariant} {session : Session}

theorem obeys_start
    (h : ∀ binding ∈ globalBindings, inv.Name binding.1 ∧ inv.Value binding.2) :
    start.Obeys inv := by
  have hempty : Store.empty.Obeys inv := by
    refine ⟨Store.closed_empty, ?_, ?_⟩
    all_goals
      intro scope name value hvalue
      cases hvalue
  constructor
  . decide
  . apply hempty.push
    . rintro _ ⟨⟩
    . intro name value hvalue
      obtain ⟨hname, hvalue'⟩ := h _ (Bindings.mem_of_get? hvalue)
      exact ⟨hname, Store.within_global hvalue _, hvalue'⟩

theorem Obeys.run (h : session.Obeys inv) {depth : Nat} {message : String}
    (hcode : ∀ e ∈ Program.exprs message, inv.Code depth e) :
    (Program.run depth message session.scope session.store).Keeps inv session.store inv.Sound :=
  Program.keeps_run hcode h.scope_lt session.store h.store (Nat.le_refl _)

theorem Obeys.trigger (h : session.Obeys inv) {depth : Nat} {message : String}
    (hcode : ∀ e ∈ Program.exprs message, inv.Code depth e) :
    (session.trigger depth message).session.Obeys inv := by
  have hrun := h.run hcode
  rw [session_trigger]
  exact ⟨Nat.lt_of_lt_of_le h.scope_lt hrun.size_le, hrun.obeys⟩

theorem Reached.obeys {allowed : String → Prop} (h : session.Reached allowed)
    (hglobal : ∀ binding ∈ globalBindings, inv.Name binding.1 ∧ inv.Value binding.2)
    (hcode : ∀ message, allowed message → ∀ depth, ∀ e ∈ Program.exprs message, inv.Code depth e) :
    session.Obeys inv := by
  induction h with
  | start => exact obeys_start hglobal
  | trigger depth _ hmessage ih => exact ih.trigger (hcode _ hmessage depth)

end Session

end ChatLisp
