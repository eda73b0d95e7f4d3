import ChatLisp.Program

/-!
This module contains sessions: a chat command with one global scope, so that what one message
defines is there for the next.
-/

namespace ChatLisp

/--
A store and the global scope in it that messages are evaluated in.
-/
structure Session where
  store : Store
  scope : ScopeId
deriving Inhabited

/--
What a message leads to: the reply, the session that goes on, and the events on the way. There is no
reply if the message needed more depth than it was granted.
-/
structure Exchange where
  reply : Option String
  session : Session
  events : List Event

namespace Session

def start : Session :=
  ⟨Store.empty.addGlobal, Store.empty.nextScope⟩

def trigger (session : Session) (depth : Nat) (argument : String) : Exchange :=
  let run := Program.run depth argument session.scope session.store
  let next := { session with store := run.store }
  match run.outcome with
  | .value value => ⟨some value.print, next, run.events⟩
  | .error e =>
    ⟨some e.message, next, run.events ++ [.commandFailed argument e.message]⟩
  | .outOfFuel => ⟨none, next, run.events⟩

def triggerAll (session : Session) (depth : Nat) : List String → List Exchange
  | [] => []
  | argument :: arguments =>
    let exchange := session.trigger depth argument
    exchange :: exchange.session.triggerAll depth arguments

/--
The names that the session defines, apart from those that every session starts with.
-/
def definedNames (session : Session) : List String :=
  (session.store.names session.scope).filter fun name => !globalBindings.names.contains name

end Session

end ChatLisp
