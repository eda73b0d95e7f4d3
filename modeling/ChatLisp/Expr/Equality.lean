import ChatLisp.Expr.Basic
import Std.Data.HashSet.Basic

/-!
This module contains the equality of values. Closures are equal if they are the same closure, native
functions if they have the same name, and everything else is compared by structure. The data that a
value gives to a hash function follows the same rule, so that equal values may key a set.
-/

namespace ChatLisp.Expr

protected def beq : Expr → Expr → Bool
  | integer a, integer b => a == b
  | string a, string b => a == b
  | symbol a, symbol b => a == b
  | t, t => true
  | nil, nil => true
  | dot, dot => true
  | cons car cdr, cons car' cdr' => car.beq car' && cdr.beq cdr'
  | quoted a, quoted b => a.beq b
  | closure serial _ _ _, closure serial' _ _ _ => serial == serial'
  | native f, native g => f.name == g.name
  | sequence as, sequence bs => all as bs
  | _, _ => false
where
  all : List Expr → List Expr → Bool
    | [], [] => true
    | a :: as, b :: bs => a.beq b && all as bs
    | _, _ => false

instance : BEq Expr :=
  ⟨Expr.beq⟩

inductive HashDatum where
  | number (n : Nat)
  | integer (value : Int64)
  | text (s : String)
deriving DecidableEq, Hashable

def form : Expr → Nat
  | integer _ => 0
  | string _ => 1
  | symbol _ => 2
  | t => 3
  | nil => 4
  | cons _ _ => 5
  | quoted _ => 6
  | dot => 7
  | closure _ _ _ _ => 8
  | native _ => 9
  | sequence _ => 10

/--
The data that a value is hashed by, in order: its form first, then what makes it equal to another
value of that form.
-/
def hashData (e : Expr) : List HashDatum :=
  .number e.form ::
    match e with
    | integer value => [.integer value]
    | string payload => [.text payload]
    | symbol name => [.text name]
    | cons car cdr => car.hashData ++ cdr.hashData
    | quoted inner => inner.hashData
    | closure serial _ _ _ => [.number serial]
    | native f => [.text f.name]
    | sequence exprs => .number exprs.length :: all exprs
    | t => []
    | nil => []
    | dot => []
where
  all : List Expr → List HashDatum
    | [] => []
    | e :: es => e.hashData ++ all es

instance : Hashable Expr :=
  ⟨fun e => hash e.hashData⟩

def distinct (exprs : List Expr) : Nat :=
  (Std.HashSet.ofList exprs).size

end ChatLisp.Expr
