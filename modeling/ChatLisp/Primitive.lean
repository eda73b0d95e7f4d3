import ChatLisp.Eval.Error
import ChatLisp.Expr.List
import ChatLisp.Integer

/-!
This module contains what the primitives do with values.
-/

namespace ChatLisp.Primitive

def wrongCount (primitive : Primitive) (expected : Nat) (args : List Expr) : EvalError :=
  .wrongArity (.native primitive.name) expected args.length

/--
The value of a primitive at the given arguments. Of two arguments that are no integers, the first
is the one that is refused.
-/
def run (primitive : Primitive) (args : List Expr) : Except EvalError Expr :=
  match primitive with
  | sub =>
    match args with
    | [.integer a, .integer b] =>
      match integerOfInt? (a.toInt - b.toInt) with
      | some difference => .ok (.integer difference)
      | none => .error (.integerOverflow a b)
    | [.integer _, other] => .error (.typeMismatch sub .integer other)
    | [other, _] => .error (.typeMismatch sub .integer other)
    | _ => .error (sub.wrongCount 2 args)
  | cons =>
    match args with
    | [first, second] => .ok (.cons first second)
    | _ => .error (cons.wrongCount 2 args)
  | car =>
    match args with
    | [.cons first _] => .ok first
    | [other] => .error (.typeMismatch car .consCell other)
    | _ => .error (car.wrongCount 1 args)
  | cdr =>
    match args with
    | [.cons _ second] => .ok second
    | [other] => .error (.typeMismatch cdr .consCell other)
    | _ => .error (cdr.wrongCount 1 args)
  | list => .ok (.ofList args)

end ChatLisp.Primitive
