import ChatLisp.Bracket.Balance
import ChatLisp.Report
import ChatLisp.Text.Blank

/-!
This module contains the console: the conversation of a user with one global scope, line by line. It
takes pieces of input and gives what is to be shown, so it can be run on a terminal as well as on a
text.
-/

namespace ChatLisp

inductive Output where
  | text (text : String)
  /-- The remark that the right parenthesis at a byte offset closes nothing. -/
  | unmatched (position : Nat)
  | report (report : Report)
deriving Inhabited

def Output.unmatchedText (position : Nat) : String :=
  "  - Unmatched ')' at position " ++ toString position

structure Console where
  prompt : String
  store : Store
  scope : ScopeId
  entry : List Char
deriving Inhabited

namespace Console

def defaultPrompt : String :=
  "botlisp> "

def banner : String :=
  "botlisp REPL v0.1.0\nType 'exit' or press Ctrl-D to quit.\nNo previous history.\n"

def farewell : String :=
  "\nExiting.\n"

def start (prompt : String) : Console :=
  ⟨prompt, Store.empty.addGlobal, Store.empty.nextScope, []⟩

def opening (console : Console) : List Output :=
  [.text banner, .text console.prompt]

/--
The conversation after an input, which is none if the user ended it, and what is shown.
-/
structure Turn where
  next : Option Console
  shown : List Output

/--
The end of a line at the end of a text: a newline with or without a carriage return before it.
-/
def splitLineEnd (text : List Char) : List Char × List Char :=
  match text.reverse with
  | '\n' :: '\r' :: front => (front.reverse, ['\r', '\n'])
  | '\n' :: front => (front.reverse, ['\n'])
  | _ => (text, [])

def isExit (entry : List Char) : Bool :=
  entry.map Char.toLower == "exit".toList

def submit (console : Console) (depth : Nat) (entry : List Char) : Turn :=
  let entry := Blank.trim entry
  let next := { console with entry := [] }
  if entry = [] then
    ⟨some next, [.text console.prompt]⟩
  else if isExit entry then
    ⟨none, []⟩
  else
    let source := String.ofList entry
    let run := Program.run depth source console.scope console.store
    let shown :=
      match run.outcome with
      | .value value => [.text (value.print ++ "\n")]
      | .error e => [.report (e.report source)]
      | .outOfFuel => []
    ⟨some { next with store := run.store }, shown ++ [.text console.prompt]⟩

/--
Take one more line, with its line end if it has one. An entry that is not complete goes on with the
next line. So does one with a right parenthesis that closes nothing, but without the line end
between.
-/
def feed (console : Console) (depth : Nat) (line : List Char) : Turn :=
  let (entry, lineEnd) := splitLineEnd (console.entry ++ line)
  match Bracket.balance entry with
  | .complete => console.submit depth entry
  | .incomplete => ⟨some { console with entry := entry ++ lineEnd }, []⟩
  | .unmatched position => ⟨some { console with entry := entry }, [.unmatched position]⟩

/--
What is shown for the lines of an input up to its end. An entry that is not complete at the end is
dropped.
-/
def feedAll (console : Console) (depth : Nat) : List (List Char) → List Output
  | [] => [.text farewell]
  | line :: lines =>
    let turn := console.feed depth line
    match turn.next with
    | none => turn.shown
    | some next => turn.shown ++ next.feedAll depth lines

def inputLines (input : List Char) : List (List Char) :=
  splitAfter (fun c _ => c = '\n') input

def transcript (prompt : String) (depth : Nat) (input : String) : List Output :=
  let console := start prompt
  console.opening ++ console.feedAll depth (inputLines input.toList)

end Console

end ChatLisp
