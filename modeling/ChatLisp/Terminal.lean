import ChatLisp.CommandLine
import ChatLisp.Console

/-!
This module contains the console on the standard streams. The environment variable `BOTLISP_PROMPT`
sets the prompt.
-/

namespace ChatLisp.Terminal

def reportText (report : Report) : String :=
  match report.label with
  | none => "Error: " ++ report.headline ++ "\n"
  | some label =>
    "Error: " ++ report.headline ++ "\n  at " ++ label.place.text ++ ": " ++ label.text ++ "\n"

/--
Show what the console has to show. All but texts goes to the error stream.
-/
def present (output : Output) : IO Unit := do
  match output with
  | .text text => do
    (← IO.getStdout).putStr text
    (← IO.getStdout).flush
  | .unmatched position => (← IO.getStderr).putStr (Output.unmatchedText position)
  | .report report => (← IO.getStderr).putStr (reportText report)

def converse : IO Unit := do
  let prompt := (← IO.getEnv "BOTLISP_PROMPT").getD Console.defaultPrompt
  let mut console := Console.start prompt
  console.opening.forM present
  let stdin ← IO.getStdin
  repeat
    let line ← stdin.getLine
    if line.isEmpty then
      present (.text Console.farewell)
      break
    let turn := console.feed CommandLine.depth line.toList
    turn.shown.forM present
    match turn.next with
    | none => break
    | some next => console := next

end ChatLisp.Terminal
