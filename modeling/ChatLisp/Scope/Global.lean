import ChatLisp.Scope.Store

/-!
This module contains the global scope that programs start in: `t`, `nil` and the native functions.
-/

namespace ChatLisp

def Primitive.name : Primitive → String
  | sub => "-"
  | cons => "cons"
  | car => "car"
  | cdr => "cdr"
  | list => "list"

def Primitive.arity : Primitive → Arity
  | sub => .fixed 2
  | cons => .fixed 2
  | car => .fixed 1
  | cdr => .fixed 1
  | list => .variadic

def Primitive.native (primitive : Primitive) : Native :=
  ⟨primitive.name, primitive.arity, primitive⟩

def natives : List Native :=
  [Primitive.sub, .cons, .car, .cdr, .list].map Primitive.native

def globalBindings : Bindings :=
  ("t", .t) :: ("nil", .nil) :: natives.map fun f => (f.name, .native f)

namespace Store

def addGlobal (store : Store) : Store :=
  store.push ⟨none, globalBindings⟩

/--
Add a scope that binds nothing and lies in no other.
-/
def addRoot (store : Store) : Store :=
  store.push ⟨none, []⟩

end Store

end ChatLisp
