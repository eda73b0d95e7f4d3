/-!
This module contains the expressions of the language. Parsed code and evaluated data are of the same
type, so a list is both a call that can be evaluated and a value that can be taken apart.
-/

namespace ChatLisp

/--
The number by which a store knows one of its scopes.
-/
abbrev ScopeId := Nat

inductive Primitive where
  | sub
  | cons
  | car
  | cdr
  | list
deriving DecidableEq, Inhabited

inductive Arity where
  | fixed (count : Nat)
  | variadic
deriving DecidableEq, Inhabited

/--
A built-in operation as a value: the name it prints as, the number of arguments that a call must
give, and the operation itself.
-/
structure Native where
  name : String
  arity : Arity
  primitive : Primitive
deriving DecidableEq, Inhabited

inductive Expr where
  | integer (value : Int64)
  | string (payload : String)
  | symbol (name : String)
  | t
  /-- The value of the name `nil`, and the empty list. -/
  | nil
  /-- A dot that stands alone. Dots that end a list are resolved when the list is read. -/
  | dot
  | cons (car cdr : Expr)
  | quoted (inner : Expr)
  /--
  A function made by `lambda`. The serial number tells it from all other closures, `scope` is the
  scope it was made in.
  -/
  | closure (serial : Nat) (scope : ScopeId) (params : List String) (body : Expr)
  | native (function : Native)
  /-- Expressions to evaluate in turn, the body of a closure. -/
  | sequence (exprs : List Expr)
deriving Inhabited

namespace Expr

/--
Induction on expressions, where the case of a sequence has the hypothesis for each of its members.
-/
@[elab_as_elim, induction_eliminator]
theorem induction {motive : Expr → Prop}
    (integer : ∀ value, motive (.integer value))
    (string : ∀ payload, motive (.string payload))
    (symbol : ∀ name, motive (.symbol name))
    (t : motive .t)
    (nil : motive .nil)
    (dot : motive .dot)
    (cons : ∀ car cdr, motive car → motive cdr → motive (.cons car cdr))
    (quoted : ∀ inner, motive inner → motive (.quoted inner))
    (closure : ∀ serial scope params body, motive body →
      motive (.closure serial scope params body))
    (native : ∀ function, motive (.native function))
    (sequence : ∀ exprs, (∀ e ∈ exprs, motive e) → motive (.sequence exprs))
    (e : Expr) : motive e :=
  @Expr.rec motive (fun es => ∀ e ∈ es, motive e)
    integer string symbol t nil dot cons quoted closure native sequence
    (fun _ h => nomatch h)
    (fun _ _ head tail => fun _ h => by
      cases h with
      | head => exact head
      | tail _ h => exact tail _ h)
    e

def typeName : Expr → String
  | integer _ => "integer"
  | string _ => "string"
  | symbol _ => "symbol"
  | t => "t"
  | nil => "nil"
  | dot => "dot"
  | cons _ _ => "cons cell"
  | quoted _ => "quoted expression"
  | closure _ _ _ _ => "lambda function"
  | native _ => "native function"
  | sequence _ => "expression sequence"

def isCallable : Expr → Bool
  | closure _ _ _ _ => true
  | native _ => true
  | _ => false

end Expr

end ChatLisp
