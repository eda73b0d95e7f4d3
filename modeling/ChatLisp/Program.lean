import ChatLisp.Eval.Basic
import ChatLisp.Parser.Basic

/-!
This module contains programs: texts that are read as expressions and evaluated in turn. The whole
text is read before anything is evaluated, so a text with a syntax error has no effect.
-/

namespace ChatLisp

/--
Why a text has no value, by the stage that refused it.
-/
inductive ProgramError where
  | token (error : IntegerOverflow)
  | parse (error : ParseError)
  | eval (error : EvalError)
deriving Inhabited

def ProgramError.message : ProgramError → String
  | token error => "TokenizeError: " ++ error.message
  | parse error => "ParseError: " ++ error.message
  | eval error => "EvalError: " ++ error.message

def SyntaxError.toProgramError : SyntaxError → ProgramError
  | token error => .token error
  | parse error => .parse error

namespace Program

open StoreM

def runExprs (depth : Nat) (exprs : List Expr) (scope : ScopeId) : StoreM ProgramError Expr := do
  report (.evaluating exprs.length)
  (Eval.sequence (evaluate depth) scope exprs).mapError .eval

/--
Evaluate a text in a scope. What it defines outside of calls stays in that scope.
-/
def run (depth : Nat) (text : String) (scope : ScopeId) : StoreM ProgramError Expr :=
  match tokenize text with
  | .error e => fail (.token e)
  | .ok tokens => do
    report (.tokenized tokens.length)
    match Parser.readAll tokens with
    | .error e => fail (.parse e)
    | .ok [] => fail (.parse .emptyInput)
    | .ok exprs => runExprs depth exprs scope

def runFresh (depth : Nat) (text : String) : Run ProgramError Expr :=
  run depth text Store.empty.nextScope Store.empty.addGlobal

end Program

end ChatLisp
