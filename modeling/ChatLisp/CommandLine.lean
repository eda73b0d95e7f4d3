import ChatLisp.Program

/-!
This module contains the command line, which evaluates its first argument and prints the value.
-/

namespace ChatLisp.CommandLine

structure Reply where
  code : UInt32
  stdout : String
  stderr : String
deriving DecidableEq, Inhabited

def usage : String :=
  "usage: botlisp <expression>\n"

def depth : Nat :=
  1000000

/--
Answer the given arguments. All but the first are ignored.
-/
def reply (args : List String) : Reply :=
  match args with
  | [] => ⟨1, "", usage⟩
  | text :: _ =>
    match (Program.runFresh depth text).outcome with
    | .value value => ⟨0, value.print ++ "\n", ""⟩
    | .error e => ⟨1, e.message ++ "\n", ""⟩
    | .outOfFuel => ⟨1, "", "evaluation is nested too deeply\n"⟩

end ChatLisp.CommandLine
