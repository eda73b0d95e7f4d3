import ChatLisp.Expr.Basic
import ChatLisp.Text.Escape

/-!
This module contains the printed form of expressions. Integers, symbols, strings, lists and quoted
expressions print in the syntax they are read in.
-/

namespace ChatLisp.Expr

/--
Where an expression stands in the printed form of a list.
-/
inductive Position where
  /-- On its own, or as an item of a list. -/
  | item
  /-- As what follows an item: further items, the end of the list, or a dotted tail. -/
  | tail
deriving DecidableEq

/--
What is printed before an expression that is not a list.
-/
def Position.lead : Position → List Char
  | item => []
  | tail => [' ', '.', ' ']

/--
The characters that an expression prints as in the given position.
-/
def chars (position : Position) : Expr → List Char
  | integer value => position.lead ++ (toString value.toInt).toList
  | string payload => position.lead ++ '"' :: (Escape.escape payload.toList ++ ['"'])
  | symbol name => position.lead ++ name.toList
  | t => position.lead ++ "t".toList
  | nil =>
    match position with
    | .item => "nil".toList
    | .tail => []
  | dot => position.lead ++ ['.']
  | cons car cdr =>
    match position with
    | .item => '(' :: (car.chars .item ++ cdr.chars .tail ++ [')'])
    | .tail => ' ' :: (car.chars .item ++ cdr.chars .tail)
  | quoted inner => position.lead ++ '\'' :: inner.chars .item
  | closure _ _ _ _ => position.lead ++ "<lambda function>".toList
  | native f => position.lead ++ "<native function ".toList ++ f.name.toList ++ ['>']
  | sequence exprs => position.lead ++ all exprs
where
  all : List Expr → List Char
    | [] => []
    | [e] => e.chars .item
    | e :: es => e.chars .item ++ ' ' :: all es

def print (e : Expr) : String :=
  String.ofList (e.chars .item)

@[simp]
theorem toList_print (e : Expr) : e.print.toList = e.chars .item :=
  String.toList_ofList

/--
How error messages show a value: its type and its printed form. A value that prints as its type is
shown once.
-/
def describe (e : Expr) : String :=
  match e with
  | t => e.print
  | nil => e.print
  | dot => e.print
  | _ => e.typeName ++ " " ++ e.print

end ChatLisp.Expr
