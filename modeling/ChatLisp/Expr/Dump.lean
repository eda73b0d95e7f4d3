import ChatLisp.Expr.Basic
import ChatLisp.Text.Quoted

/-!
This module contains the dump of an expression, which shows what it is made of. The scope of a
closure is left out, since that scope may hold the closure.
-/

namespace ChatLisp

def Arity.dump : Arity → String
  | fixed count => "Fixed(" ++ toString count ++ ")"
  | variadic => "Variadic"

def Native.dump (f : Native) : String :=
  "Native(" ++ f.name ++ ", " ++ f.arity.dump ++ ")"

namespace Expr

def dumpName (name : String) : String :=
  "Symbol(" ++ Quoted.quote name ++ ")"

def dump : Expr → String
  | integer value => "Integer(" ++ toString value.toInt ++ ")"
  | string payload => "String(" ++ Quoted.quote payload ++ ")"
  | symbol name => "Symbol(" ++ dumpName name ++ ")"
  | t => "True"
  | nil => "Nil"
  | dot => "Dot"
  | cons car cdr => "Cons(Pair \x7b car: " ++ car.dump ++ ", cdr: " ++ cdr.dump ++ " \x7d)"
  | quoted inner => "Quoted(" ++ inner.dump ++ ")"
  | closure _ _ params body =>
    "Closure(Closure \x7b params: [" ++ ", ".intercalate (params.map dumpName) ++ "], body: "
      ++ body.dump ++ ", .. \x7d)"
  | native f => "Native(" ++ f.dump ++ ")"
  | sequence exprs => "Sequence([" ++ ", ".intercalate (all exprs) ++ "])"
where
  all : List Expr → List String
    | [] => []
    | e :: es => e.dump :: all es

end Expr

end ChatLisp
