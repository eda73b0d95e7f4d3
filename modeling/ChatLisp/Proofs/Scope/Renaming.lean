import ChatLisp.Proofs.Expr.Renaming
import ChatLisp.Proofs.Scope.Closed

/-!
This module contains stores that differ by the renaming of a parameter. They have the same scopes,
and each scope is in one region of the code. What a scope of the first store says of a name, the
same scope of the second one says of the name that is written there in its place.
-/

namespace ChatLisp

namespace Bindings

/--
Set names in turn, so that the last value of each name counts.
-/
def setAll (bindings : Bindings) (pairs : List (String × Expr)) : Bindings :=
  pairs.foldl (fun bindings pair => bindings.set pair.1 pair.2) bindings

theorem get?_setAll_eq_none {name : String} {bindings : Bindings} {pairs : List (String × Expr)}
    (h : (bindings.setAll pairs).get? name = none) :
    bindings.get? name = none ∧ name ∉ pairs.map Prod.fst := by
  induction pairs generalizing bindings with
  | nil => exact ⟨h, List.not_mem_nil⟩
  | cons pair pairs ih =>
    obtain ⟨hset, hrest⟩ := ih h
    rw [get?_set] at hset
    split at hset
    . cases hset
    . next hne => exact ⟨hset, List.not_mem_cons_of_ne_of_not_mem hne hrest⟩

end Bindings

theorem Store.define_push (store : Store) (frame : Frame) (name : String) (value : Expr) :
    (store.push frame).define store.nextScope name value =
      store.push { frame with bindings := frame.bindings.set name value } := by
  rw [define, push, push, nextScope]
  congr 1
  apply Array.ext_getElem?
  intro scope
  rw [Array.getElem?_modify, Array.getElem?_push, Array.getElem?_push]
  by_cases hscope : scope = store.frames.size
  . rw [if_pos hscope.symm, if_pos hscope, if_pos hscope, Option.map_some]
  . rw [if_neg (Ne.symm hscope), if_neg hscope, if_neg hscope]

namespace Renaming

variable (r : Renaming)

/--
The expression may be evaluated in a scope of the region, given the regions of all scopes. Closures
that are part of the code are from outside, and the new name is not yet used in it.
-/
structure Covers (regions : List Region) (region : Region) (e : Expr) : Prop where
  outside : ∀ captured ∈ e.captures, regions[captured]? = some .outside
  uses : ∀ name ∈ e.symbols, r.Uses region name

/--
The name may be looked up further out if a scope of the region does not bind it, since it is used
around that scope and is written there in the same way.
-/
def Passes (region around : Region) (name : String) : Prop :=
  r.Uses around name ∧ r.nameIn around name = r.nameIn region name

/--
A closure over the scope runs its body in a new scope of the given region. The new scope binds all
parameters, and other names mean there what they mean around it.
-/
structure Enters (regions : List Region) (scope : ScopeId) (params : List String) (body : Expr)
    (region : Region) : Prop where
  uses : ∀ name ∈ params, r.Uses region name
  covers : r.Covers regions region body
  around : ∃ around, regions[scope]? = some around ∧
    ∀ name, r.Uses region name → name ∉ params → r.Passes region around name

/--
Values that are the same up to the parameters and the bodies of closures made in the function.
-/
inductive Like (regions : List Region) : Expr → Expr → Prop
  | same {e : Expr} :
    (∀ captured ∈ e.captures, regions[captured]? = some .outside) → Like regions e e
  | cons {car car' cdr cdr' : Expr} :
    Like regions car car' → Like regions cdr cdr' → Like regions (.cons car cdr) (.cons car' cdr')
  | closure {scope : ScopeId} {params : List String} {body : Expr} {region : Region}
      (serial serial' : Nat) :
    r.Enters regions scope params body region →
      Like regions (.closure serial scope params body)
        (.closure serial' scope (params.map (r.nameIn region)) (r.codeIn region .item body))

/--
The second store is the first one with the renaming done in it.
-/
structure Mirrors (regions : List Region) (store store' : Store) : Prop where
  size : store.frames.size = regions.length
  size' : store'.frames.size = regions.length
  outer : ∀ scope, store'.outer? scope = store.outer? scope
  own : ∀ {scope region name}, regions[scope]? = some region → r.Uses region name →
    Option.Rel (r.Like regions) (store.own? scope name) (store'.own? scope (r.nameIn region name))
  around : ∀ {scope region outer}, regions[scope]? = some region →
    store.outer? scope = some outer → ∃ around, regions[outer]? = some around ∧
      ∀ name, r.Uses region name → store.own? scope name = none → r.Passes region around name

variable {r} {regions more : List Region} {region : Region} {scope : ScopeId}

theorem getElem?_of_extends (hle : regions <+: more) (h : regions[scope]? = some region) :
    more[scope]? = some region := by
  obtain ⟨rest, rfl⟩ := hle
  rwa [List.getElem?_append_left (List.getElem?_eq_some_iff.mp h).1]

theorem getElem?_concat {scope : ScopeId} {other : Region}
    (h : (regions ++ [region])[scope]? = some other) :
    scope < regions.length ∧ regions[scope]? = some other ∨
      scope = regions.length ∧ other = region := by
  by_cases hlt : scope < regions.length
  . rw [List.getElem?_append_left hlt] at h
    exact .inl ⟨hlt, h⟩
  . have hle := Nat.not_lt.mp hlt
    rw [List.getElem?_append_right hle, List.getElem?_singleton, Option.ite_none_right_eq_some] at h
    have heq := Nat.le_antisymm (Nat.le_of_sub_eq_zero h.1) hle
    exact .inr ⟨heq, (Option.some.inj h.2).symm⟩

theorem Covers.mono {e : Expr} (hle : regions <+: more) (h : r.Covers regions region e) :
    r.Covers more region e :=
  ⟨fun captured hmem => getElem?_of_extends hle (h.outside captured hmem), h.uses⟩

theorem covers_cons {car cdr : Expr} :
    r.Covers regions region (.cons car cdr) ↔
      r.Covers regions region car ∧ r.Covers regions region cdr := by
  constructor
  . rintro ⟨houtside, huses⟩
    rw [Expr.captures, List.forall_mem_append] at houtside
    rw [Expr.symbols, List.forall_mem_append] at huses
    exact ⟨⟨houtside.1, huses.1⟩, ⟨houtside.2, huses.2⟩⟩
  . rintro ⟨hcar, hcdr⟩
    constructor
    . rw [Expr.captures, List.forall_mem_append]
      exact ⟨hcar.outside, hcdr.outside⟩
    . rw [Expr.symbols, List.forall_mem_append]
      exact ⟨hcar.uses, hcdr.uses⟩

theorem covers_sequence {exprs : List Expr} :
    r.Covers regions region (.sequence exprs) ↔ ∀ e ∈ exprs, r.Covers regions region e := by
  constructor
  . rintro ⟨houtside, huses⟩ e he
    rw [Expr.captures_sequence, List.forall_mem_flatMap] at houtside
    rw [Expr.symbols_sequence, List.forall_mem_flatMap] at huses
    exact ⟨houtside e he, huses e he⟩
  . intro h
    constructor
    . rw [Expr.captures_sequence, List.forall_mem_flatMap]
      exact fun e he => (h e he).outside
    . rw [Expr.symbols_sequence, List.forall_mem_flatMap]
      exact fun e he => (h e he).uses

theorem Covers.of_items? {e : Expr} {items : List Expr} (h : r.Covers regions region e)
    (hitems : e.items? = some items) :
    ∀ item ∈ items, r.Covers regions region item :=
  Expr.forall_of_items? covers_cons.mp h hitems

theorem Covers.sequence {e : Expr} {exprs : List Expr} (h : r.Covers regions region e)
    (hexprs : e.items? = some exprs) :
    r.Covers regions region (.sequence exprs) :=
  covers_sequence.mpr (h.of_items? hexprs)

theorem Covers.parameters {params : Expr} {names : List String} (h : r.Covers regions region params)
    (hnames : Eval.parameters params = .ok names) :
    ∀ name ∈ names, r.Uses region name :=
  fun name hname => h.uses name (Eval.mem_symbols_of_parameters hnames name hname)

theorem Uses.inner {name : String} (h : r.Uses region name) (hregion : region ≠ .outside)
    (other : Region) :
    r.Uses other name :=
  .inr (h.resolve_left hregion)

theorem Covers.inner {e : Expr} (h : r.Covers regions region e) (hregion : region ≠ .outside)
    (other : Region) :
    r.Covers regions other e :=
  ⟨h.outside, fun name hname => (h.uses name hname).inner hregion other⟩

theorem Enters.mono {params : List String} {body : Expr} (hle : regions <+: more)
    (h : r.Enters regions scope params body region) :
    r.Enters more scope params body region := by
  obtain ⟨around, hscope, haround⟩ := h.around
  exact ⟨h.uses, h.covers.mono hle, around, getElem?_of_extends hle hscope, haround⟩

theorem enters_of_mem {around : Region} {params : List String} {body : Expr}
    (hscope : regions[scope]? = some around) (hold : r.old ∈ params)
    (hinside : region = .outside → around = .outside) (huses : ∀ name ∈ params, r.Uses region name)
    (hcovers : r.Covers regions region body) :
    r.Enters regions scope params body region := by
  refine ⟨huses, hcovers, around, hscope, ?_⟩
  intro name hname hfree
  -- The closure binds the old name, so its meaning around the closure does not matter.
  have hne : name ≠ r.old := by
    rintro rfl
    exact hfree hold
  constructor
  . exact hname.imp_left hinside
  . rw [nameIn_of_ne hne, nameIn_of_ne hne]

namespace Like

variable {e e' : Expr}

theorem mono (hle : regions <+: more) (h : r.Like regions e e') : r.Like more e e' := by
  induction h with
  | same houtside =>
    exact .same fun captured hmem => getElem?_of_extends hle (houtside captured hmem)
  | cons _ _ hcar hcdr => exact .cons hcar hcdr
  | closure serial serial' henters => exact .closure serial serial' (henters.mono hle)

theorem chars_eq (h : r.Like regions e e') (position : Expr.Position) :
    e'.chars position = e.chars position := by
  induction h generalizing position with
  | same _ => rfl
  | cons _ _ hcar hcdr => cases position <;> simp only [Expr.chars, hcar, hcdr]
  | closure _ _ _ => rfl

theorem print_eq (h : r.Like regions e e') : e'.print = e.print := by
  rw [Expr.print, Expr.print, h.chars_eq]

theorem isCallable_eq (h : r.Like regions e e') : e'.isCallable = e.isCallable := by
  cases h <;> rfl

theorem ofList {items items' : List Expr} (h : List.Forall₂ (r.Like regions) items items') :
    r.Like regions (.ofList items) (.ofList items') := by
  induction h with
  | nil => exact .same (List.forall_mem_nil _)
  | cons he _ ih => exact .cons he ih

theorem of_cons {car cdr : Expr} (h : r.Like regions (.cons car cdr) e') :
    ∃ car' cdr', e' = .cons car' cdr' ∧ r.Like regions car car' ∧ r.Like regions cdr cdr' := by
  cases h with
  | same houtside =>
    rw [Expr.captures, List.forall_mem_append] at houtside
    exact ⟨car, cdr, rfl, .same houtside.1, .same houtside.2⟩
  | cons hcar hcdr => exact ⟨_, _, rfl, hcar, hcdr⟩

theorem of_closure {serial : Nat} {params : List String} {body : Expr}
    (h : r.Like regions (.closure serial scope params body) e') :
    ∃ serial' region, e' = .closure serial' scope (params.map (r.nameIn region))
      (r.codeIn region .item body) ∧ r.Enters regions scope params body region := by
  cases h with
  | same houtside =>
    rw [Expr.captures, List.forall_mem_cons] at houtside
    refine ⟨serial, .outside, ?_, ?_⟩
    . rw [show r.nameIn .outside = id from rfl, List.map_id]
      rfl
    . refine ⟨fun _ _ => .inl rfl, ⟨houtside.2, fun _ _ => .inl rfl⟩, .outside, houtside.1, ?_⟩
      exact fun _ huses _ => ⟨huses, rfl⟩
  | closure _ serial' henters => exact ⟨serial', _, rfl, henters⟩

theorem run_sub {a a' b b' : Expr} (ha : r.Like regions a a') (hb : r.Like regions b b') :
    SameKind (r.Like regions) (Primitive.run .sub [a, b]) (Primitive.run .sub [a', b']) := by
  cases ha with
  | same _ =>
    cases hb with
    | same _ =>
      unfold Primitive.run
      dsimp only
      repeat' split
      . exact .ok (.same (List.forall_mem_nil _))
      all_goals exact .error rfl
    | _ => cases a <;> exact .error rfl
  | _ => exact .error rfl

theorem run_car (h : r.Like regions e e') :
    SameKind (r.Like regions) (Primitive.run .car [e]) (Primitive.run .car [e']) := by
  cases e with
  | cons car cdr =>
    obtain ⟨car', cdr', rfl, hcar, _⟩ := h.of_cons
    exact .ok hcar
  | _ => cases h <;> exact .error rfl

theorem run_cdr (h : r.Like regions e e') :
    SameKind (r.Like regions) (Primitive.run .cdr [e]) (Primitive.run .cdr [e']) := by
  cases e with
  | cons car cdr =>
    obtain ⟨car', cdr', rfl, _, hcdr⟩ := h.of_cons
    exact .ok hcdr
  | _ => cases h <;> exact .error rfl

theorem run (primitive : Primitive) {values values' : List Expr}
    (h : List.Forall₂ (r.Like regions) values values') :
    SameKind (r.Like regions) (primitive.run values) (primitive.run values') := by
  have hrefused : ∀ expected, primitive.arity = .fixed expected → values.length ≠ expected →
      SameKind (r.Like regions) (primitive.run values) (primitive.run values') := by
    intro expected harity hcount
    have hcount' : values'.length ≠ expected := by rwa [← h.length_eq]
    rw [Primitive.run_eq_wrongCount harity hcount, Primitive.run_eq_wrongCount harity hcount']
    exact .error rfl
  cases primitive with
  | sub =>
    match h with
    | .cons ha (.cons hb .nil) => exact run_sub ha hb
    | .nil | .cons _ .nil | .cons _ (.cons _ (.cons _ _)) => exact hrefused 2 rfl (by simp)
  | cons =>
    match h with
    | .cons ha (.cons hb .nil) => exact .ok (.cons ha hb)
    | .nil | .cons _ .nil | .cons _ (.cons _ (.cons _ _)) => exact hrefused 2 rfl (by simp)
  | car =>
    match h with
    | .cons he .nil => exact run_car he
    | .nil | .cons _ (.cons _ _) => exact hrefused 1 rfl (by simp)
  | cdr =>
    match h with
    | .cons he .nil => exact run_cdr he
    | .nil | .cons _ (.cons _ _) => exact hrefused 1 rfl (by simp)
  | list => exact .ok (.ofList h)

end Like

theorem setAll_like {params : List String} (hparams : ∀ name ∈ params, r.Uses region name)
    {values values' : List Expr} (hvalues : List.Forall₂ (r.Like regions) values values')
    {bindings bindings' : Bindings}
    (hbindings : ∀ name, r.Uses region name → Option.Rel (r.Like regions) (bindings.get? name)
      (bindings'.get? (r.nameIn region name)))
    {name : String} (hname : r.Uses region name) :
    Option.Rel (r.Like regions) ((bindings.setAll (params.zip values)).get? name)
      ((bindings'.setAll ((params.map (r.nameIn region)).zip values')).get?
        (r.nameIn region name)) := by
  induction hvalues generalizing params bindings bindings' with
  | nil => simpa [Bindings.setAll] using hbindings name hname
  | cons hvalue _ ih =>
    cases params with
    | nil => exact hbindings name hname
    | cons param params =>
      rw [List.forall_mem_cons] at hparams
      apply ih hparams.2
      intro asked hasked
      rw [Bindings.get?_set, Bindings.get?_set]
      by_cases hsame : asked = param
      . rw [if_pos hsame, if_pos (congrArg _ hsame)]
        exact .some hvalue
      . rw [if_neg hsame, if_neg fun heq => hsame (nameIn_injOn hasked hparams.1 heq)]
        exact hbindings asked hasked

namespace Mirrors

variable {store store' : Store}

theorem lt_size (h : r.Mirrors regions store store') (hscope : regions[scope]? = some region) :
    scope < store.frames.size ∧ scope < store'.frames.size := by
  rw [h.size, h.size']
  have hlt := (List.getElem?_eq_some_iff.mp hscope).1
  exact ⟨hlt, hlt⟩

theorem lookup? (h : r.Mirrors regions store store') (hscope : regions[scope]? = some region)
    {name : String} (hname : r.Uses region name) :
    Option.Rel (r.Like regions) (store.lookup? scope name)
      (store'.lookup? scope (r.nameIn region name)) := by
  induction scope using Nat.strong_induction_on generalizing region with
  | _ scope ih =>
    have hown := h.own hscope hname
    rw [Store.lookup?_eq, Store.lookup?_eq, h.outer]
    cases hvalue : store.own? scope name with
    | some value =>
      rw [hvalue] at hown
      generalize store'.own? scope (r.nameIn region name) = value' at hown
      cases hown with
      | some hlike => exact .some hlike
    | none =>
      rw [hvalue] at hown
      generalize store'.own? scope (r.nameIn region name) = value' at hown
      cases hown
      rw [Option.none_or, Option.none_or]
      split
      . exact .none
      . next outer houter =>
        split
        . next hlt =>
          -- The scope around may be of another region, but the name is written there as it is here.
          obtain ⟨around, haround, hpasses⟩ := h.around hscope houter
          obtain ⟨huses, hsame⟩ := hpasses name hname hvalue
          rw [← hsame]
          exact ih outer hlt haround huses
        . exact .none

theorem define (h : r.Mirrors regions store store') (hscope : regions[scope]? = some region)
    {name : String} (hname : r.Uses region name) {value value' : Expr}
    (hvalue : r.Like regions value value') :
    r.Mirrors regions (store.define scope name value)
      (store'.define scope (r.nameIn region name) value') := by
  have hlt := h.lt_size hscope
  constructor
  . rw [Store.size_frames_define, h.size]
  . rw [Store.size_frames_define, h.size']
  . intro other
    rw [Store.outer?_define, Store.outer?_define, h.outer]
  . intro other region' asked hother hasked
    by_cases heq : other = scope
    . subst heq
      rw [Option.some.inj (hother.symm.trans hscope)] at *
      rw [Store.own?_define hlt.1, Store.own?_define hlt.2]
      -- Two names that may be used in one region are not written as the same one.
      by_cases hsame : asked = name
      . rw [if_pos hsame, if_pos (congrArg _ hsame)]
        exact .some hvalue
      . rw [if_neg hsame, if_neg fun heq => hsame (nameIn_injOn hasked hname heq)]
        exact h.own hscope hasked
    . rw [Store.own?_define_of_ne heq, Store.own?_define_of_ne heq]
      exact h.own hother hasked
  . intro other region' outer hother houter
    rw [Store.outer?_define] at houter
    obtain ⟨around, haround, hpasses⟩ := h.around hother houter
    refine ⟨around, haround, ?_⟩
    intro asked hasked hnone
    apply hpasses asked hasked
    by_cases heq : other = scope
    . subst heq
      rw [Store.own?_define hlt.1] at hnone
      split at hnone
      . cases hnone
      . exact hnone
    . rwa [Store.own?_define_of_ne heq] at hnone

theorem push (h : r.Mirrors regions store store') {outer : ScopeId} {bindings bindings' : Bindings}
    (hown : ∀ name, r.Uses region name → Option.Rel (r.Like regions) (bindings.get? name)
      (bindings'.get? (r.nameIn region name)))
    (haround : ∃ around, regions[outer]? = some around ∧
      ∀ name, r.Uses region name → bindings.get? name = none → r.Passes region around name) :
    r.Mirrors (regions ++ [region]) (store.push ⟨some outer, bindings⟩)
      (store'.push ⟨some outer, bindings'⟩) := by
  have hle : regions <+: regions ++ [region] := List.prefix_append _ _
  have hscope : store.nextScope = regions.length := h.size
  have hscope' : store'.nextScope = regions.length := h.size'
  constructor
  . rw [Store.push, Array.size_push, h.size, List.length_append, List.length_singleton]
  . rw [Store.push, Array.size_push, h.size', List.length_append, List.length_singleton]
  . intro other
    rw [Store.outer?, Store.outer?, Store.getElem?_frames_push, Store.getElem?_frames_push, hscope,
      hscope']
    split
    . rfl
    . exact h.outer other
  . intro other region' name hother hname
    rw [Store.own?, Store.own?, Store.getElem?_frames_push, Store.getElem?_frames_push, hscope,
      hscope']
    obtain ⟨hlt, hother⟩ | ⟨rfl, rfl⟩ := getElem?_concat hother
    . rw [if_neg hlt.ne, if_neg hlt.ne]
      exact optionRel_imp (fun _ _ => Like.mono hle) (h.own hother hname)
    . rw [if_pos rfl, if_pos rfl]
      exact optionRel_imp (fun _ _ => Like.mono hle) (hown name hname)
  . intro other region' inner hother houter
    rw [Store.outer?, Store.getElem?_frames_push, hscope] at houter
    simp only [Store.own?, Store.getElem?_frames_push, hscope]
    obtain ⟨hlt, hother⟩ | ⟨rfl, rfl⟩ := getElem?_concat hother
    . rw [if_neg hlt.ne] at houter
      simp only [if_neg hlt.ne]
      obtain ⟨around, haround, hpasses⟩ := h.around hother houter
      exact ⟨around, getElem?_of_extends hle haround, hpasses⟩
    . rw [if_pos rfl] at houter
      cases houter
      simp only [if_pos]
      obtain ⟨around, haround, hpasses⟩ := haround
      exact ⟨around, getElem?_of_extends hle haround, hpasses⟩

theorem enclose (h : r.Mirrors regions store store') (hscope : regions[scope]? = some region) :
    r.Mirrors (regions ++ [region]) (store.enclose scope) (store'.enclose scope) := by
  apply h.push
  . exact fun _ _ => .none
  . exact ⟨region, hscope, fun _ huses _ => ⟨huses, rfl⟩⟩

theorem enter (h : r.Mirrors regions store store') {params : List String} {body : Expr}
    (henters : r.Enters regions scope params body region) {values values' : List Expr}
    (hvalues : List.Forall₂ (r.Like regions) values values')
    (hlength : params.length = values.length) :
    r.Mirrors (regions ++ [region])
      (store.push ⟨some scope, Bindings.setAll [] (params.zip values)⟩)
      (store'.push
        ⟨some scope, Bindings.setAll [] ((params.map (r.nameIn region)).zip values')⟩) := by
  obtain ⟨around, hscope, haround⟩ := henters.around
  apply h.push
  . intro name hname
    exact setAll_like henters.uses hvalues (fun _ _ => .none) hname
  . refine ⟨around, hscope, ?_⟩
    intro name hname hnone
    apply haround name hname
    have hfree := (Bindings.get?_setAll_eq_none hnone).2
    rwa [List.map_fst_zip hlength.le] at hfree

theorem refl (h : store.Closed) :
    r.Mirrors (List.replicate store.frames.size .outside) store store := by
  have houtside : ∀ {scope : ScopeId} {region : Region},
      (List.replicate store.frames.size Region.outside)[scope]? = some region →
        region = .outside := by
    intro scope region hscope
    exact List.eq_of_mem_replicate (List.mem_of_getElem? hscope)
  constructor
  . rw [List.length_replicate]
  . rw [List.length_replicate]
  . exact fun _ => rfl
  . intro scope region name hscope _
    rw [houtside hscope]
    change Option.Rel _ (store.own? scope name) (store.own? scope name)
    cases hvalue : store.own? scope name with
    | none => exact .none
    | some value =>
      apply Option.Rel.some
      apply Like.same
      intro captured hmem
      exact List.getElem?_replicate_of_lt (h.within hvalue captured hmem)
  . intro scope region outer hscope houter
    rw [houtside hscope]
    have hlt := (h.nested houter).trans (Store.lt_size_of_outer? houter)
    exact ⟨.outside, List.getElem?_replicate_of_lt hlt, fun _ huses _ => ⟨huses, rfl⟩⟩

end Mirrors

end Renaming

end ChatLisp
