import ChatLisp.Proofs.Expr.Likeness
import ChatLisp.Report

/-!
This module contains the renaming of a parameter in the code of its function. The name is replaced
wherever it is not quoted and no inner function lists it as a parameter of its own. What is replaced
depends on the region that code belongs to: only inside the function, and not where the name is
shadowed. The main statement is that a `lambda` form reads the same parameters from renamed code, by
their new names.
-/

namespace ChatLisp

namespace Expr

def lambdaForm (params body : List Expr) : Expr :=
  cons (symbol "lambda") (cons (ofList params) (ofList body))

/--
The symbol of this name is an item of the list, which may be dotted.
-/
def lists (name : String) : Expr → Bool
  | cons (symbol other) rest => other = name || rest.lists name
  | cons _ rest => rest.lists name
  | _ => false

/--
The expression is a `lambda` form that lists the name among its own parameters.
-/
def rebinds (name : String) : Expr → Bool
  | cons (symbol operator) (cons params _) => operator = "lambda" && params.lists name
  | _ => false

theorem lists_ofList {name : String} {items : List Expr} :
    (ofList items).lists name ↔ symbol name ∈ items := by
  induction items with
  | nil => simp [lists]
  | cons item items ih =>
    rw [ofList_cons, List.mem_cons, ← ih]
    cases item with
    | symbol other => simp [lists, eq_comm (a := other)]
    | _ => simp [lists]

theorem exists_of_rebinds {name : String} {e : Expr} (h : e.rebinds name) :
    ∃ params body, e = cons (symbol "lambda") (cons params body) ∧ params.lists name := by
  unfold rebinds at h
  split at h
  . next params body =>
    rw [Bool.and_eq_true, decide_eq_true_eq] at h
    obtain ⟨rfl, hlists⟩ := h
    exact ⟨params, body, rfl, hlists⟩
  . cases h

end Expr

/--
A name and another one that is written in its place. Neither is that of a special form.
-/
structure Renaming where
  old : String
  new : String
  old_plain : old ∉ specialForms
  new_plain : new ∉ specialForms

/--
The part of all code that an expression belongs to, as seen from a function with a parameter that is
renamed.
-/
inductive Region where
  /-- Neither the function nor made by it. -/
  | outside
  /-- In the function, where the name is that of the parameter. -/
  | inside
  /-- In the function, but in an inner one with a parameter of the same name. -/
  | shadowed
deriving DecidableEq

namespace Renaming

variable (r : Renaming)

def name (name : String) : String :=
  if name = r.old then r.new else name

/--
The code with the new name in place of the old one. A list is a form only if it stands as an item,
not if it is what follows the first items of another list.
-/
def rename (position : Expr.Position) : Expr → Expr
  | .symbol name => .symbol (r.name name)
  | .cons car cdr =>
    if position = .item ∧ (Expr.cons car cdr).rebinds r.old then .cons car cdr
    else .cons (rename .item car) (rename .tail cdr)
  | .sequence exprs => .sequence (all exprs)
  | e => e
where
  all : List Expr → List Expr
    | [] => []
    | e :: es => rename .item e :: all es

def nameIn : Region → String → String
  | .inside, name => r.name name
  | _, name => name

def codeIn : Region → Expr.Position → Expr → Expr
  | .inside, position, e => r.rename position e
  | _, _, e => e

/--
The names that may be used in a region. The new name is not yet used in the function.
-/
def Uses (region : Region) (name : String) : Prop :=
  region = .outside ∨ name ≠ r.new

theorem rename_sequence (position : Expr.Position) (exprs : List Expr) :
    r.rename position (.sequence exprs) = .sequence (exprs.map (r.rename .item)) := by
  rw [rename]
  congr 1
  induction exprs with
  | nil => rfl
  | cons e exprs ih => rw [rename.all, ih, List.map_cons]

theorem rename_item {e : Expr} (h : ¬ e.rebinds r.old) : r.rename .item e = r.rename .tail e := by
  cases e with
  | cons car cdr =>
    rw [rename, rename, if_neg (fun hitem => h hitem.2), if_neg (fun htail => nomatch htail.1)]
  | _ => rfl

theorem items?_rename_tail (e : Expr) :
    (r.rename .tail e).items? = e.items?.map (List.map (r.rename .item)) := by
  induction e with
  | cons car cdr _ ih =>
    rw [rename, if_neg (fun htail => nomatch htail.1), Expr.items?, Expr.items?, ih]
    cases cdr.items? <;> rfl
  | _ => rfl

section

variable {r} {region : Region}

theorem nameIn_injOn {a b : String} (ha : r.Uses region a) (hb : r.Uses region b)
    (h : r.nameIn region a = r.nameIn region b) :
    a = b := by
  cases region with
  | inside =>
    simp only [Uses, reduceCtorEq, false_or] at ha hb
    simp only [nameIn, name] at h
    split at h <;> split at h <;> simp_all
  | _ => exact h

theorem nameIn_of_ne {name : String} (h : name ≠ r.old) : r.nameIn region name = name := by
  cases region with
  | inside => exact if_neg h
  | _ => rfl

theorem nameIn_eq_iff {name form : String} (hform : form ∈ specialForms) :
    r.nameIn region name = form ↔ name = form := by
  have hold : form ≠ r.old := by
    rintro rfl
    exact r.old_plain hform
  have hnew : r.new ≠ form := by
    rintro rfl
    exact r.new_plain hform
  cases region with
  | inside =>
    simp only [nameIn, Renaming.name]
    split
    . next heq => simp only [heq, hnew, hold.symm]
    . rfl
  | _ => rfl

end

section

variable (region : Region)

theorem codeIn_symbol (position : Expr.Position) (name : String) :
    r.codeIn region position (.symbol name) = .symbol (r.nameIn region name) := by
  cases region <;> rfl

theorem codeIn_quoted (position : Expr.Position) (inner : Expr) :
    r.codeIn region position (.quoted inner) = .quoted inner := by
  cases region <;> rfl

theorem codeIn_sequence (position : Expr.Position) (exprs : List Expr) :
    r.codeIn region position (.sequence exprs) =
      .sequence (exprs.map (r.codeIn region .item)) := by
  cases region with
  | inside => exact r.rename_sequence position exprs
  | _ => exact congrArg Expr.sequence exprs.map_id.symm

theorem codeIn_cons (car cdr : Expr) :
    r.codeIn region .item (.cons car cdr) =
        .cons (r.codeIn region .item car) (r.codeIn region .tail cdr) ∨
      r.codeIn region .item (.cons car cdr) = .cons car cdr ∧ region = .inside ∧
        (Expr.cons car cdr).rebinds r.old := by
  cases region with
  | inside =>
    by_cases hrebinds : (Expr.cons car cdr).rebinds r.old
    . exact .inr ⟨if_pos ⟨rfl, hrebinds⟩, rfl, hrebinds⟩
    . exact .inl (if_neg fun hitem => hrebinds hitem.2)
  | _ => exact .inl rfl

theorem codeIn_cons_tail (car cdr : Expr) :
    r.codeIn region .tail (.cons car cdr) =
      .cons (r.codeIn region .item car) (r.codeIn region .tail cdr) := by
  cases region <;> rfl

theorem items?_codeIn_tail (e : Expr) :
    (r.codeIn region .tail e).items? = e.items?.map (List.map (r.codeIn region .item)) := by
  cases region with
  | inside => exact r.items?_rename_tail e
  | _ =>
    change e.items? = e.items?.map (List.map id)
    rw [List.map_id_fun, Option.map_id, id]

theorem codeIn_ne_symbol {e : Expr} (h : ∀ name, e ≠ .symbol name) (position : Expr.Position)
    (name : String) :
    r.codeIn region position e ≠ .symbol name := by
  cases region with
  | inside =>
    change r.rename position e ≠ .symbol name
    cases e with
    | symbol other => exact absurd rfl (h other)
    | cons car cdr =>
      rw [rename]
      split <;> nofun
    | _ => nofun
  | _ => exact h name

end

end Renaming

/--
Both results are values that are related, or both are errors of the same kind.
-/
inductive SameKind {α β : Type} (R : α → β → Prop) : Except EvalError α → Except EvalError β → Prop
  | ok {a : α} {b : β} : R a b → SameKind R (.ok a) (.ok b)
  | error {e e' : EvalError} : Report.evalRemark e' = Report.evalRemark e →
    SameKind R (.error e) (.error e')

namespace Eval

/--
The names of the parameters of a `lambda` form.
-/
def parameters (params : Expr) : Except EvalError (List String) :=
  match params.items? with
  | none => .error (.invalidSpecialForm (.improperParameters params))
  | some items => paramNames items

/--
Make a closure over the scope.
-/
def close (names : List String) (exprs : List Expr) (scope : ScopeId) : StoreM EvalError Expr := do
  StoreM.report (.closureCreated names.length exprs.length)
  let serial ← StoreM.read Store.closures
  StoreM.modify fun store => { store with closures := store.closures + 1 }
  pure (.closure serial scope names (.sequence exprs))

theorem lambda_cons (params body : Expr) (scope : ScopeId) :
    Eval.lambda (.cons params body) scope =
      match parameters params, body.items? with
      | .error e, _ => StoreM.fail e
      | .ok _, none => StoreM.fail (.invalidSpecialForm .improperBody)
      | .ok names, some exprs => close names exprs scope := by
  rw [Eval.lambda, parameters]
  repeat' split
  all_goals simp_all [close]

theorem paramNames_of_ne_symbol {item : Expr} (h : ∀ name, item ≠ .symbol name)
    (items : List Expr) :
    paramNames (item :: items) = .error (.notASymbol item) := by
  cases item with
  | symbol name => exact absurd rfl (h name)
  | _ => rfl

theorem eq_map_symbol_of_paramNames {items : List Expr} {names : List String}
    (h : paramNames items = .ok names) :
    items = names.map .symbol := by
  induction items generalizing names with
  | nil =>
    cases h
    rfl
  | cons item items ih =>
    cases item with
    | symbol name =>
      rw [paramNames] at h
      cases hrest : paramNames items with
      | error e =>
        rw [hrest] at h
        cases h
      | ok rest =>
        rw [hrest] at h
        cases h
        rw [List.map_cons, ih hrest]
    | _ => cases h

theorem exists_parameters_eq_error {name : String} {params : Expr} (h : params.rebinds name) :
    ∃ e, parameters params = .error e := by
  obtain ⟨inner, rest, rfl, hlists⟩ := Expr.exists_of_rebinds h
  have hinner : ∀ other, inner ≠ .symbol other := by
    rintro other rfl
    cases hlists
  rw [parameters, Expr.items?, Expr.items?]
  cases rest.items? with
  | none => exact ⟨_, rfl⟩
  | some items =>
    refine ⟨.notASymbol inner, ?_⟩
    change paramNames (.symbol "lambda" :: inner :: items) = _
    rw [paramNames, paramNames_of_ne_symbol hinner]
    rfl

theorem mem_parameters_iff {params : Expr} {names : List String}
    (h : parameters params = .ok names) (name : String) :
    name ∈ names ↔ params.lists name := by
  unfold parameters at h
  split at h
  . cases h
  . next items hitems =>
    rw [Expr.eq_ofList_of_items? hitems, Expr.lists_ofList, eq_map_symbol_of_paramNames h]
    simp

theorem mem_symbols_of_parameters {params : Expr} {names : List String}
    (h : parameters params = .ok names) :
    ∀ name ∈ names, name ∈ params.symbols := by
  unfold parameters at h
  split at h
  . cases h
  . next items hitems =>
    intro name hname
    have hsymbol : Expr.symbol name ∈ items := by
      rw [eq_map_symbol_of_paramNames h]
      exact List.mem_map_of_mem hname
    exact Expr.mem_symbols_of_items? hitems hsymbol List.mem_cons_self

variable (r : Renaming) (region : Region)

theorem paramNames_codeIn (items : List Expr) :
    SameKind (fun names names' => names' = names.map (r.nameIn region)) (paramNames items)
      (paramNames (items.map (r.codeIn region .item))) := by
  induction items with
  | nil => exact .ok rfl
  | cons item items ih =>
    rw [List.map_cons]
    by_cases hsymbol : ∃ name, item = .symbol name
    . obtain ⟨name, rfl⟩ := hsymbol
      rw [r.codeIn_symbol, paramNames, paramNames]
      generalize paramNames items = result, paramNames (items.map _) = result' at ih
      cases ih with
      | ok hnames => exact .ok (congrArg (r.nameIn region name :: ·) hnames)
      | error hremark => exact .error hremark
    . rw [not_exists] at hsymbol
      rw [paramNames_of_ne_symbol hsymbol,
        paramNames_of_ne_symbol (r.codeIn_ne_symbol region hsymbol .item)]
      exact .error rfl

theorem parameters_codeIn (params : Expr) :
    SameKind (fun names names' => names' = names.map (r.nameIn region)) (parameters params)
      (parameters (r.codeIn region .item params)) := by
  by_cases hrebinds : params.rebinds r.old
  -- Parameters that look like an inner function are left as they are, and are refused anyway.
  . have hsame : r.codeIn region .item params = params := by
      cases region with
      | inside =>
        cases params with
        | cons car cdr => exact if_pos ⟨rfl, hrebinds⟩
        | _ => cases hrebinds
      | _ => rfl
    obtain ⟨e, he⟩ := exists_parameters_eq_error hrebinds
    rw [hsame, he]
    exact .error rfl
  . have htail : r.codeIn region .item params = r.codeIn region .tail params := by
      cases region with
      | inside => exact r.rename_item hrebinds
      | _ => rfl
    rw [htail, parameters, parameters, r.items?_codeIn_tail]
    cases params.items? with
    | none => exact .error rfl
    | some items => exact paramNames_codeIn r region items

end Eval

end ChatLisp
