import ChatLisp.Scope.Bindings

/-!
This module contains the store: all scopes that were ever made, each with its own bindings and the
scope around it. A name means what the nearest scope that binds it says.
-/

namespace ChatLisp

structure Frame where
  /-- The scope around this one. A root has none. -/
  outer : Option ScopeId
  bindings : Bindings
deriving Inhabited

/--
All scopes, by number, and the number of closures made so far, which is the serial number of the
next one.
-/
structure Store where
  frames : Array Frame
  closures : Nat
deriving Inhabited

namespace Store

def empty : Store :=
  ⟨#[], 0⟩

def nextScope (store : Store) : ScopeId :=
  store.frames.size

def push (store : Store) (frame : Frame) : Store :=
  { store with frames := store.frames.push frame }

/--
Add a scope without bindings inside the scope `outer`.
-/
def enclose (store : Store) (outer : ScopeId) : Store :=
  store.push ⟨some outer, []⟩

/--
Bind a name in the given scope only. A binding of the same name further out is shadowed.
-/
def define (store : Store) (scope : ScopeId) (name : String) (value : Expr) : Store :=
  { store with
    frames := store.frames.modify scope fun frame =>
      { frame with bindings := frame.bindings.set name value } }

@[simp]
theorem size_frames_enclose (store : Store) (outer : ScopeId) :
    (store.enclose outer).frames.size = store.frames.size + 1 := by
  simp [enclose, push]

theorem getElem?_frames_enclose {store : Store} {outer scope : ScopeId}
    (h : scope < store.frames.size) :
    (store.enclose outer).frames[scope]? = store.frames[scope]? := by
  simp only [enclose, push]
  rw [Array.getElem?_push_lt h]
  rw [Array.getElem?_eq_getElem h]

@[simp]
theorem size_frames_define (store : Store) (scope : ScopeId) (name : String) (value : Expr) :
    (store.define scope name value).frames.size = store.frames.size := by
  simp [define]

theorem getElem?_frames_define (store : Store) (scope other : ScopeId) (name : String)
    (value : Expr) :
    (store.define scope name value).frames[other]? =
      if other = scope then
        store.frames[other]?.map fun frame =>
          { frame with bindings := frame.bindings.set name value }
      else
        store.frames[other]? := by
  simp only [define]
  rw [Array.getElem?_modify]
  simp only [eq_comm]

/--
The frames that are visible from a scope, nearest first.
-/
def chain (store : Store) (scope : ScopeId) : List Frame :=
  match store.frames[scope]? with
  | none => []
  | some frame =>
    match frame.outer with
    | none => [frame]
    -- A scope is made inside one that is there already, so the outer scope has the lower number.
    | some outer => if outer < scope then frame :: store.chain outer else [frame]

def lookup? (store : Store) (scope : ScopeId) (name : String) : Option Expr :=
  (store.chain scope).findSome? fun frame => frame.bindings.get? name

/--
All names that have a value in a scope, each once and in the order of their characters.
-/
def names (store : Store) (scope : ScopeId) : List String :=
  ((store.chain scope).flatMap fun frame => frame.bindings.names).eraseDups.mergeSort
    fun a b => decide (a ≤ b)

theorem mem_names_iff {store : Store} {scope : ScopeId} {name : String} :
    name ∈ store.names scope ↔ (store.lookup? scope name).isSome := by
  simp only [names, List.mem_mergeSort, List.mem_eraseDups, List.mem_flatMap, lookup?,
    List.findSome?_isSome_iff, Bindings.mem_names_iff]

end Store

end ChatLisp
