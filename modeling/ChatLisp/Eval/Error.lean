import ChatLisp.Expr.Print
import ChatLisp.Scope.Global

/-!
This module contains the ways in which evaluation can fail, and their messages.
-/

namespace ChatLisp

inductive Callee where
  | closure
  | native (name : String)
deriving DecidableEq, Inhabited

def Callee.text : Callee → String
  | closure => "lambda function"
  | native name => "function " ++ name

inductive Operand where
  | integer
  | consCell
deriving DecidableEq, Inhabited

def Operand.text : Operand → String
  | integer => "integer arguments"
  | consCell => "a cons cell"

inductive FormError where
  | missingParameters
  | improperParameters (params : Expr)
  | improperBody
  | malformedAssignment
deriving Inhabited

def FormError.text : FormError → String
  | missingParameters => "lambda expects a parameter list"
  | improperParameters params => "lambda parameters must be a list, got " ++ params.print
  | improperBody => "lambda body must be a proper list"
  | malformedAssignment => "setq expects a symbol and a value"

inductive EvalError where
  | unbound (name : String)
  | notAProcedure (value : Expr)
  | wrongArity (callee : Callee) (expected found : Nat)
  | typeMismatch (primitive : Primitive) (expected : Operand) (found : Expr)
  | notASymbol (found : Expr)
  | invalidSpecialForm (error : FormError)
  | improperArguments (args : Expr)
  | integerOverflow (minuend subtrahend : Int64)
deriving Inhabited

def EvalError.message : EvalError → String
  | unbound name => "couldn't find key '" ++ name ++ "'"
  | notAProcedure value => "attempt to call non-function: " ++ value.print
  | wrongArity callee expected found =>
    "wrong number of arguments to " ++ callee.text ++ ": expected " ++ toString expected ++ ", got "
      ++ toString found
  | typeMismatch primitive expected found =>
    primitive.name ++ " expects " ++ expected.text ++ ", got " ++ found.describe
  | notASymbol found => "expected a symbol, got " ++ found.print
  | invalidSpecialForm error => "invalid special form: " ++ error.text
  | improperArguments args => "invalid arguments: improper argument list: " ++ args.print
  | integerOverflow minuend subtrahend =>
    "invalid arguments: integer overflow in (- " ++ toString minuend.toInt ++ " "
      ++ toString subtrahend.toInt ++ ")"

end ChatLisp
