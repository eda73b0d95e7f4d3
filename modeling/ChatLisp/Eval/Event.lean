import ChatLisp.Expr.Print
import ChatLisp.Text.Quoted

/-!
This module contains the events that a run reports to the log.
-/

namespace ChatLisp

inductive Event where
  | tokenized (count : Nat)
  | evaluating (count : Nat)
  | closureCreated (params body : Nat)
  | bound (name : String) (value : Expr)
  | nativeApplied (name : String) (args : Nat)
  | closureApplied (args : Nat)
  | commandFailed (argument reason : String)
deriving Inhabited

namespace Event

def level : Event → String
  | tokenized _ => "TRACE"
  | evaluating _ => "DEBUG"
  | closureCreated _ _ => "DEBUG"
  | bound _ _ => "TRACE"
  | nativeApplied _ _ => "TRACE"
  | closureApplied _ => "TRACE"
  | commandFailed _ _ => "DEBUG"

def target : Event → String
  | tokenized _ => "botlisp::lexer"
  | evaluating _ => "botlisp"
  | closureCreated _ _ => "botlisp::evaluator"
  | bound _ _ => "botlisp::environment"
  | nativeApplied _ _ => "botlisp::evaluator"
  | closureApplied _ => "botlisp::evaluator"
  | commandFailed _ _ => "botlisp::command"

def message : Event → String
  | tokenized count => "tokenized " ++ toString count ++ " tokens"
  | evaluating count => "evaluating " ++ toString count ++ " top-level expression(s)"
  | closureCreated params body =>
    "creating closure with " ++ toString params ++ " parameter(s) and " ++ toString body
      ++ " body expression(s)"
  | bound name value => "bind " ++ name ++ " = " ++ value.print
  | nativeApplied name args =>
    "applying native " ++ name ++ " to " ++ toString args ++ " argument(s)"
  | closureApplied args => "applying closure to " ++ toString args ++ " argument(s)"
  | commandFailed argument reason =>
    "lisp command failed on " ++ Quoted.quote argument ++ ": " ++ reason

def line (event : Event) : String :=
  event.level ++ " " ++ event.target ++ " " ++ event.message

end Event

end ChatLisp
