import Mathlib.Data.List.Forall2
import Mathlib.Data.Set.Basic
import ChatLisp.Eval.Basic

/-!
This module contains the likeness of expressions that belong to two different stores. Expressions
are alike if they have the same form, except that their closures may have been made in different
scopes, as long as these scopes are linked. They print the same, and primitives do not tell them
apart.
-/

namespace ChatLisp

namespace Expr

/--
The symbols that are written in an expression. A closure is not written but made, so the symbols of
its body are not among them.
-/
def symbols : Expr → List String
  | symbol name => [name]
  | cons car cdr => car.symbols ++ cdr.symbols
  | quoted inner => inner.symbols
  | sequence exprs => all exprs
  | _ => []
where
  all : List Expr → List String
    | [] => []
    | e :: es => e.symbols ++ all es

/--
The scopes that the closures in an expression were made in, at any depth.
-/
def captures : Expr → List ScopeId
  | cons car cdr => car.captures ++ cdr.captures
  | quoted inner => inner.captures
  | closure _ scope _ body => scope :: body.captures
  | sequence exprs => all exprs
  | _ => []
where
  all : List Expr → List ScopeId
    | [] => []
    | e :: es => e.captures ++ all es

/--
Expressions of the same form whose closures were made in linked scopes. The bodies of the closures
use no names other than the given ones.
-/
inductive Alike (names : Set String) (link : ScopeId → ScopeId → Prop) : Expr → Expr → Prop
  | integer (value : Int64) : Alike names link (integer value) (integer value)
  | string (payload : String) : Alike names link (string payload) (string payload)
  | symbol (name : String) : Alike names link (symbol name) (symbol name)
  | t : Alike names link t t
  | nil : Alike names link nil nil
  | dot : Alike names link dot dot
  | cons {car car' cdr cdr' : Expr} :
    Alike names link car car' → Alike names link cdr cdr' →
      Alike names link (cons car cdr) (cons car' cdr')
  | quoted {inner inner' : Expr} :
    Alike names link inner inner' → Alike names link (quoted inner) (quoted inner')
  | closure {serial serial' : Nat} {scope scope' : ScopeId} {params : List String}
      {body body' : Expr} :
    link scope scope' → Alike names link body body' → (∀ name ∈ body.symbols, name ∈ names) →
      Alike names link (closure serial scope params body) (closure serial' scope' params body')
  | native (f : Native) : Alike names link (native f) (native f)
  | emptySequence : Alike names link (sequence []) (sequence [])
  | sequence {e e' : Expr} {exprs exprs' : List Expr} :
    Alike names link e e' → Alike names link (sequence exprs) (sequence exprs') →
      Alike names link (sequence (e :: exprs)) (sequence (e' :: exprs'))

variable {names : Set String} {link : ScopeId → ScopeId → Prop} {e e' : Expr}
  {exprs exprs' : List Expr}

theorem symbols_ofList (items : List Expr) : (ofList items).symbols = items.flatMap symbols := by
  induction items with
  | nil => rfl
  | cons item items ih => rw [ofList_cons, symbols, ih, List.flatMap_cons]

theorem mem_symbols_of_items? {items : List Expr} (hitems : e.items? = some items) {item : Expr}
    (hitem : item ∈ items) {name : String} (hname : name ∈ item.symbols) :
    name ∈ e.symbols := by
  rw [eq_ofList_of_items? hitems, symbols_ofList]
  exact List.mem_flatMap_of_mem hitem hname

theorem symbols_sequence (exprs : List Expr) :
    (sequence exprs).symbols = exprs.flatMap symbols := by
  rw [symbols]
  induction exprs with
  | nil => rfl
  | cons e exprs ih => rw [symbols.all, ih, List.flatMap_cons]

theorem captures_sequence (exprs : List Expr) :
    (sequence exprs).captures = exprs.flatMap captures := by
  rw [captures]
  induction exprs with
  | nil => rfl
  | cons e exprs ih => rw [captures.all, ih, List.flatMap_cons]

namespace Alike

theorem mono {link' : ScopeId → ScopeId → Prop} (h : Alike names link e e')
    (hlink : ∀ scope scope', link scope scope' → link' scope scope') :
    Alike names link' e e' := by
  induction h with
  | closure hscope _ hbody ih => exact .closure (hlink _ _ hscope) ih hbody
  | cons _ _ hcar hcdr => exact .cons hcar hcdr
  | quoted _ ih => exact .quoted ih
  | sequence _ _ he hexprs => exact .sequence he hexprs
  | _ => constructor

theorem isCallable_eq (h : Alike names link e e') : e'.isCallable = e.isCallable := by
  cases h <;> rfl

theorem typeName_eq (h : Alike names link e e') : e'.typeName = e.typeName := by
  cases h <;> rfl

theorem sequence_iff :
    Alike names link (.sequence exprs) (.sequence exprs') ↔
      List.Forall₂ (Alike names link) exprs exprs' := by
  constructor
  . intro h
    induction exprs generalizing exprs' with
    | nil =>
      cases h
      exact .nil
    | cons e exprs ih =>
      cases h with
      | sequence he hexprs => exact .cons he (ih hexprs)
  . intro h
    induction h with
    | nil => exact .emptySequence
    | cons he _ ih => exact .sequence he ih

theorem chars_eq (h : Alike names link e e') (position : Position) :
    e'.chars position = e.chars position := by
  induction h generalizing position with
  | cons _ _ hcar hcdr => cases position <;> simp only [chars, hcar, hcdr]
  | quoted _ ih => simp only [chars, ih]
  | sequence _ hexprs he ih =>
    have hall := ih .item
    simp only [chars, Position.lead, List.nil_append] at hall
    -- What stands between the first member and the others depends on whether there are others.
    have hlength := (sequence_iff.mp hexprs).length_eq
    rename_i exprs exprs' _
    cases exprs <;> cases exprs' <;> simp_all [chars, chars.all]
  | _ => rfl

theorem print_eq (h : Alike names link e e') : e'.print = e.print := by
  rw [print, print, h.chars_eq]

theorem describe_eq (h : Alike names link e e') : e'.describe = e.describe := by
  have hprint := h.print_eq
  have htype := h.typeName_eq
  cases h <;> simp only [describe, hprint, htype]

theorem ofList (h : List.Forall₂ (Alike names link) exprs exprs') :
    Alike names link (ofList exprs) (ofList exprs') := by
  induction h with
  | nil => exact .nil
  | cons he _ ih => exact .cons he ih

theorem items? (h : Alike names link e e') :
    Option.Rel (List.Forall₂ (Alike names link)) e.items? e'.items? := by
  induction h with
  | nil => exact .some .nil
  | @cons _ _ cdr cdr' hcar _ _ ih =>
    rw [Expr.items?, Expr.items?]
    generalize cdr.items? = items, cdr'.items? = items' at ih
    cases ih with
    | none => exact .none
    | some hitems => exact .some (.cons hcar hitems)
  | _ => exact .none

theorem refl (hnames : ∀ name, name ∈ names) (h : ∀ scope ∈ e.captures, link scope scope) :
    Alike names link e e := by
  induction e with
  | cons car cdr hcar hcdr =>
    simp only [captures, List.mem_append] at h
    exact .cons (hcar fun scope hscope => h scope (.inl hscope))
      (hcdr fun scope hscope => h scope (.inr hscope))
  | quoted inner ih => exact .quoted (ih h)
  | closure serial scope params body ih =>
    simp only [captures, List.mem_cons, forall_eq_or_imp] at h
    exact .closure h.1 (ih h.2) fun name _ => hnames name
  | sequence exprs ih =>
    rw [sequence_iff, List.forall₂_same]
    intro e he
    apply ih e he
    intro scope hscope
    apply h scope
    rw [captures_sequence]
    exact List.mem_flatMap_of_mem he hscope
  | _ => constructor

end Alike

end Expr

/--
Both results are values that are related, or both are errors with the same message.
-/
inductive ResultRel {α β : Type} (R : α → β → Prop) : Except EvalError α → Except EvalError β → Prop
  | ok {a : α} {b : β} : R a b → ResultRel R (.ok a) (.ok b)
  | error {e e' : EvalError} : e'.message = e.message → ResultRel R (.error e) (.error e')

open ChatLisp.Expr

variable {names : Set String} {link : ScopeId → ScopeId → Prop}

theorem message_typeMismatch {e e' : Expr} (h : Alike names link e e') (primitive : Primitive)
    (operand : Operand) :
    (EvalError.typeMismatch primitive operand e').message =
      (EvalError.typeMismatch primitive operand e).message :=
  congrArg (_ ++ ·) h.describe_eq

namespace Primitive

theorem run_eq_wrongCount {primitive : Primitive} {expected : Nat}
    (harity : primitive.arity = .fixed expected) {args : List Expr}
    (hcount : args.length ≠ expected) :
    primitive.run args = .error (primitive.wrongCount expected args) := by
  cases primitive with
  | sub =>
    cases harity
    match args with
    | [] | [_] | _ :: _ :: _ :: _ => simp only [run]
    | [_, _] => exact absurd rfl hcount
  | cons =>
    cases harity
    match args with
    | [] | [_] | _ :: _ :: _ :: _ => simp only [run]
    | [_, _] => exact absurd rfl hcount
  | car =>
    cases harity
    match args with
    | [] | _ :: _ :: _ => simp only [run]
    | [_] => exact absurd rfl hcount
  | cdr =>
    cases harity
    match args with
    | [] | _ :: _ :: _ => simp only [run]
    | [_] => exact absurd rfl hcount
  | list => cases harity

theorem run_sub_alike {a a' b b' : Expr} (ha : Alike names link a a') (hb : Alike names link b b') :
    ResultRel (Alike names link) (run .sub [a, b]) (run .sub [a', b']) := by
  have hfirst := message_typeMismatch ha .sub .integer
  have hsecond := message_typeMismatch hb .sub .integer
  cases ha with
  | integer a =>
    cases hb with
    | integer b =>
      simp only [run]
      split
      . exact .ok (.integer _)
      . exact .error rfl
    | _ => exact .error hsecond
  | _ => exact .error hfirst

theorem run_car_alike {e e' : Expr} (h : Alike names link e e') :
    ResultRel (Alike names link) (run .car [e]) (run .car [e']) := by
  have hmessage := message_typeMismatch h .car .consCell
  cases h with
  | cons hcar _ => exact .ok hcar
  | _ => exact .error hmessage

theorem run_cdr_alike {e e' : Expr} (h : Alike names link e e') :
    ResultRel (Alike names link) (run .cdr [e]) (run .cdr [e']) := by
  have hmessage := message_typeMismatch h .cdr .consCell
  cases h with
  | cons _ hcdr => exact .ok hcdr
  | _ => exact .error hmessage

theorem run_alike (primitive : Primitive) {args args' : List Expr}
    (h : List.Forall₂ (Alike names link) args args') :
    ResultRel (Alike names link) (primitive.run args) (primitive.run args') := by
  have hrefused : ∀ expected, primitive.arity = .fixed expected → args.length ≠ expected →
      ResultRel (Alike names link) (primitive.run args) (primitive.run args') := by
    intro expected harity hcount
    have hcount' : args'.length ≠ expected := by rwa [← h.length_eq]
    rw [run_eq_wrongCount harity hcount, run_eq_wrongCount harity hcount', wrongCount, wrongCount,
      h.length_eq]
    exact .error rfl
  cases primitive with
  | sub =>
    match h with
    | .cons ha (.cons hb .nil) => exact run_sub_alike ha hb
    | .nil | .cons _ .nil | .cons _ (.cons _ (.cons _ _)) => exact hrefused 2 rfl (by simp)
  | cons =>
    match h with
    | .cons ha (.cons hb .nil) => exact .ok (.cons ha hb)
    | .nil | .cons _ .nil | .cons _ (.cons _ (.cons _ _)) => exact hrefused 2 rfl (by simp)
  | car =>
    match h with
    | .cons he .nil => exact run_car_alike he
    | .nil | .cons _ (.cons _ _) => exact hrefused 1 rfl (by simp)
  | cdr =>
    match h with
    | .cons he .nil => exact run_cdr_alike he
    | .nil | .cons _ (.cons _ _) => exact hrefused 1 rfl (by simp)
  | list => exact .ok (.ofList h)

end Primitive

theorem Eval.paramNames_alike {params params' : List Expr}
    (h : List.Forall₂ (Alike names link) params params') :
    ResultRel (· = ·) (Eval.paramNames params) (Eval.paramNames params') := by
  induction h with
  | nil => exact .ok rfl
  | @cons param param' params params' hparam _ ih =>
    have hprint := hparam.print_eq
    cases hparam with
    | symbol name =>
      rw [Eval.paramNames, Eval.paramNames]
      generalize Eval.paramNames params = result, Eval.paramNames params' = result' at ih
      cases ih with
      | ok heq => exact .ok (congrArg (name :: ·) heq)
      | error heq => exact .error heq
    | _ => exact .error (congrArg (_ ++ ·) hprint)

end ChatLisp
