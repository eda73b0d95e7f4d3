import ChatLisp.Eval.Basic
import ChatLisp.Token.Lexer

/-!
This module contains the completion of the symbol before the cursor by the names that are known in a
scope.
-/

namespace ChatLisp.Completion

/--
The name of the last token of the text, if it is a symbol that the text ends with.
-/
def lastSymbol? (text : String) : Option String :=
  match tokenize text with
  | .error _ => none
  | .ok tokens =>
    match tokens.getLast? with
    | some ⟨.symbol name, _⟩ => if name.toList.isSuffixOf text.toList then some name else none
    | _ => none

def remainder? (front name : String) : Option String :=
  (front.toList.isPrefixOf? name.toList).bind fun rest =>
    if rest = [] then none else some (String.ofList rest)

def knownNames (store : Store) (scope : ScopeId) : List String :=
  (store.names scope ++ specialForms).eraseDups

/--
The texts that complete the symbol before the byte offset `position`, in the order of their
characters.
-/
def candidates (store : Store) (scope : ScopeId) (line : String) (position : Nat) : List String :=
  match lastSymbol? (String.ofList (takeBytes position line.toList)) with
  | none => []
  | some front =>
    ((knownNames store scope).filterMap (remainder? front)).mergeSort fun a b => decide (a ≤ b)

/--
The byte offset from which on a line may be completed, and the texts that may be put there.
-/
structure Offer where
  start : Nat
  candidates : List String
deriving DecidableEq, Inhabited

def complete (store : Store) (scope : ScopeId) (line : String) (position : Nat) : Offer :=
  ⟨position, candidates store scope line position⟩

end ChatLisp.Completion
