import ChatLisp.Eval.Event
import ChatLisp.Scope.Store

/-!
This module contains the monad of computations on a store. A computation can fail, and it can run
out of the depth that it was granted. Events are only ever added, and no computation can see them.
-/

namespace ChatLisp

inductive Outcome (ε α : Type) where
  | value (a : α)
  | error (e : ε)
  /-- The computation went deeper than it was granted. -/
  | outOfFuel
deriving Inhabited

/--
The end of a computation that neither goes deeper nor touches a store.
-/
def Outcome.ofExcept {ε α : Type} : Except ε α → Outcome ε α
  | .ok a => .value a
  | .error e => .error e

/--
The end of a computation, the store that it leaves, and what it reported on the way.
-/
structure Run (ε α : Type) where
  outcome : Outcome ε α
  store : Store
  events : List Event

def StoreM (ε α : Type) := Store → Run ε α

namespace StoreM

variable {ε ε' α β γ : Type}

protected def pure (a : α) : StoreM ε α :=
  fun store => ⟨.value a, store, []⟩

protected def bind (action : StoreM ε α) (f : α → StoreM ε β) : StoreM ε β :=
  fun store =>
    match action store with
    | ⟨.value a, store, events⟩ =>
      let next := f a store
      { next with events := events ++ next.events }
    | ⟨.error e, store, events⟩ => ⟨.error e, store, events⟩
    | ⟨.outOfFuel, store, events⟩ => ⟨.outOfFuel, store, events⟩

instance : Monad (StoreM ε) where
  pure := StoreM.pure
  bind := StoreM.bind

def fail (e : ε) : StoreM ε α :=
  fun store => ⟨.error e, store, []⟩

/--
Give up because the granted depth is used up.
-/
def giveUp : StoreM ε α :=
  fun store => ⟨.outOfFuel, store, []⟩

def read (f : Store → α) : StoreM ε α :=
  fun store => ⟨.value (f store), store, []⟩

def modify (f : Store → Store) : StoreM ε Unit :=
  fun store => ⟨.value (), f store, []⟩

def report (event : Event) : StoreM ε Unit :=
  fun store => ⟨.value (), store, [event]⟩

def mapError (f : ε → ε') (action : StoreM ε α) : StoreM ε' α :=
  fun store =>
    match action store with
    | ⟨.value a, store, events⟩ => ⟨.value a, store, events⟩
    | ⟨.error e, store, events⟩ => ⟨.error (f e), store, events⟩
    | ⟨.outOfFuel, store, events⟩ => ⟨.outOfFuel, store, events⟩

@[simp]
theorem pure_apply (a : α) (store : Store) :
    (pure a : StoreM ε α) store = ⟨.value a, store, []⟩ :=
  rfl

theorem store_bind (action : StoreM ε α) (f : α → StoreM ε β) (store : Store) :
    ((action >>= f) store).store =
      match (action store).outcome with
      | .value a => (f a (action store).store).store
      | _ => (action store).store := by
  change (action.bind f store).store = _
  unfold StoreM.bind
  split <;> simp_all

theorem outcome_bind (action : StoreM ε α) (f : α → StoreM ε β) (store : Store) :
    ((action >>= f) store).outcome =
      match (action store).outcome with
      | .value a => (f a (action store).store).outcome
      | .error e => .error e
      | .outOfFuel => .outOfFuel := by
  change (action.bind f store).outcome = _
  unfold StoreM.bind
  split <;> simp_all

theorem store_mapError (f : ε → ε') (action : StoreM ε α) (store : Store) :
    (action.mapError f store).store = (action store).store := by
  unfold mapError
  split <;> simp_all

theorem outcome_mapError (f : ε → ε') (action : StoreM ε α) (store : Store) :
    (action.mapError f store).outcome =
      match (action store).outcome with
      | .value a => .value a
      | .error e => .error (f e)
      | .outOfFuel => .outOfFuel := by
  unfold mapError
  split <;> simp_all

theorem mapError_bind (action : StoreM ε α) (f : α → StoreM ε β) (g : ε → ε') :
    (action >>= f).mapError g = action.mapError g >>= fun a => (f a).mapError g := by
  funext store
  change (action.bind f).mapError g store =
    (action.mapError g).bind (fun a => (f a).mapError g) store
  simp only [StoreM.bind, mapError]
  cases action store with
  | mk outcome store events =>
    cases outcome with
    | value a =>
      cases h : f a store with
      | mk outcome store events => cases outcome <;> simp [h]
    | error e => rfl
    | outOfFuel => rfl

theorem bind_assoc (action : StoreM ε α) (f : α → StoreM ε β) (g : β → StoreM ε γ) :
    (action.bind f).bind g = action.bind fun a => (f a).bind g := by
  funext store
  simp only [StoreM.bind]
  cases action store with
  | mk outcome store events =>
    cases outcome with
    | value a =>
      cases h : f a store with
      | mk outcome store events => cases outcome <;> simp [h]
    | error e => rfl
    | outOfFuel => rfl

theorem bind_pure (action : StoreM ε α) : action.bind StoreM.pure = action := by
  funext store
  simp only [StoreM.bind]
  split <;> simp_all [StoreM.pure]

instance : LawfulMonad (StoreM ε) :=
  LawfulMonad.mk' (StoreM ε) bind_pure (fun _ _ => rfl) bind_assoc

end StoreM

end ChatLisp
