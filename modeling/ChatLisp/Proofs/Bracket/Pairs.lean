import Mathlib.Data.List.Induction
import ChatLisp.Bracket.Mode

/-!
This module contains which parentheses of a line belong together. The grammar of strings and of text
with balanced parentheses says it for finished pieces of the line. A scan that goes over the line
once, and keeps what stands before each open parenthesis, finds the same pairs.
-/

namespace ChatLisp.Bracket

variable {text more outer inner before front : List Char} {c : Char}

/--
What stands between the quotes of a string, where a backslash takes the next character with it.
-/
inductive Inner : List Char → Prop
  | nil : Inner []
  | char {c : Char} {text : List Char} : c ≠ '\\' → c ≠ '"' → Inner text → Inner (c :: text)
  | escape (c : Char) {text : List Char} : Inner text → Inner ('\\' :: c :: text)

/--
All strings of the text are closed, so what follows it stands outside of strings.
-/
inductive Outside : List Char → Prop
  | nil : Outside []
  | char {c : Char} {text : List Char} : c ≠ '"' → Outside text → Outside (c :: text)
  | string {inner text : List Char} :
    Inner inner → Outside text → Outside ('"' :: inner ++ '"' :: text)

/--
All strings of the text are closed, and outside of them each parenthesis has its partner.
-/
inductive Level : List Char → Prop
  | nil : Level []
  | char {c : Char} {text : List Char} :
    c ≠ '(' → c ≠ ')' → c ≠ '"' → Level text → Level (c :: text)
  | string {inner text : List Char} :
    Inner inner → Level text → Level ('"' :: inner ++ '"' :: text)
  | parens {inside text : List Char} :
    Level inside → Level text → Level ('(' :: inside ++ ')' :: text)

/--
A right parenthesis behind `before` closes the left one behind `front`.
-/
def Closes (before front : List Char) : Prop :=
  ∃ between, before = front ++ '(' :: between ∧ Outside front ∧ Level between

theorem Inner.append (h : Inner text) (hmore : Inner more) : Inner (text ++ more) := by
  induction h with
  | nil => exact hmore
  | char hslash hquote _ ih => exact .char hslash hquote ih
  | escape c _ ih => exact .escape c ih

theorem Outside.append (h : Outside text) (hmore : Outside more) : Outside (text ++ more) := by
  induction h with
  | nil => exact hmore
  | char hquote _ ih => exact .char hquote ih
  | string hinner _ ih =>
    rw [List.append_assoc]
    exact .string hinner ih

theorem Level.append (h : Level text) (hmore : Level more) : Level (text ++ more) := by
  induction h with
  | nil => exact hmore
  | char hleft hright hquote _ ih => exact .char hleft hright hquote ih
  | string hinner _ ih =>
    rw [List.append_assoc]
    exact .string hinner ih
  | parens hinside _ _ ih =>
    rw [List.append_assoc]
    exact .parens hinside ih

theorem Level.outside (h : Level text) : Outside text := by
  induction h with
  | nil => exact .nil
  | char _ _ hquote _ ih => exact .char hquote ih
  | string hinner _ ih => exact .string hinner ih
  | parens _ _ hinside ih => exact .char (by decide) (hinside.append (.char (by decide) ih))

theorem Closes.outside (h : Closes before front) : Outside before := by
  obtain ⟨between, rfl, hfront, hbetween⟩ := h
  exact hfront.append (.char (by decide) hbetween.outside)

theorem Closes.length_lt (h : Closes before front) : front.length < before.length := by
  obtain ⟨between, rfl, _⟩ := h
  simp

/--
The scan of a line behind `text`. The parentheses that are open stand behind `fronts`, innermost
first.
-/
structure Scan where
  mode : Mode
  text : List Char
  fronts : List (List Char)

def Scan.next (scan : Scan) (c : Char) : Scan where
  mode := scan.mode.next c
  text := scan.text ++ [c]
  fronts :=
    if scan.mode = .code ∧ c = '(' then scan.text :: scan.fronts
    else if scan.mode = .code ∧ c = ')' then scan.fronts.tail
    else scan.fronts

def scan (text : List Char) : Scan :=
  text.foldl Scan.next ⟨.code, [], []⟩

theorem scan_append (text more : List Char) :
    scan (text ++ more) = more.foldl Scan.next (scan text) :=
  List.foldl_append

theorem scan_snoc (text : List Char) (c : Char) : scan (text ++ [c]) = (scan text).next c :=
  scan_append text [c]

@[simp]
theorem text_scan (text : List Char) : (scan text).text = text := by
  induction text using List.reverseRecOn with
  | nil => rfl
  | append_singleton text c ih => rw [scan_snoc, Scan.next, ih]

@[simp]
theorem mode_scan_snoc (text : List Char) (c : Char) :
    (scan (text ++ [c])).mode = (scan text).mode.next c := by
  rw [scan_snoc, Scan.next]

theorem fronts_snoc_left (h : (scan text).mode = .code) :
    (scan (text ++ ['('])).fronts = text :: (scan text).fronts := by
  simp [scan_snoc, Scan.next, h]

theorem fronts_snoc_right (h : (scan text).mode = .code) :
    (scan (text ++ [')'])).fronts = (scan text).fronts.tail := by
  simp [scan_snoc, Scan.next, h]

theorem fronts_snoc_other (h : (scan text).mode = .code → c ≠ '(' ∧ c ≠ ')') :
    (scan (text ++ [c])).fronts = (scan text).fronts := by
  rw [scan_snoc, Scan.next]
  dsimp only
  rw [if_neg fun hc => (h hc.1).1 hc.2, if_neg fun hc => (h hc.1).2 hc.2]

theorem foldl_inner (h : Inner inner) (text : List Char) (fronts : List (List Char)) :
    inner.foldl Scan.next ⟨.string, text, fronts⟩ = ⟨.string, text ++ inner, fronts⟩ := by
  induction h generalizing text with
  | nil => simp
  | char hslash hquote _ ih => simp [Scan.next, Mode.next, hslash, hquote, ih]
  | escape c _ ih => simp [Scan.next, Mode.next, ih]

theorem foldl_level {level : List Char} (h : Level level) (text : List Char)
    (fronts : List (List Char)) :
    level.foldl Scan.next ⟨.code, text, fronts⟩ = ⟨.code, text ++ level, fronts⟩ := by
  induction h generalizing text fronts with
  | nil => simp
  | char hleft hright hquote _ ih => simp [Scan.next, Mode.next, hleft, hright, hquote, ih]
  | string hinner _ ih => simp [Scan.next, Mode.next, foldl_inner hinner, ih]
  | parens _ _ hinside ih => simp [Scan.next, Mode.next, hinside, ih]

theorem mode_foldl_outside (h : Outside more) (text : List Char) (fronts : List (List Char)) :
    (more.foldl Scan.next ⟨.code, text, fronts⟩).mode = .code := by
  induction h generalizing text fronts with
  | nil => rfl
  | char hquote _ ih => simpa [Scan.next, Mode.next, hquote] using ih _ _
  | string hinner _ ih => simpa [Scan.next, Mode.next, foldl_inner hinner] using ih _ _

/--
The parentheses behind `fronts` are open behind the text, each inside of the next one. Nothing is
said of what stands before the last of them.
-/
inductive Opened : List Char → List (List Char) → Prop
  | nil (text : List Char) : Opened text []
  | cons {front between : List Char} {fronts : List (List Char)} :
    Outside front → Opened front fronts → Level between →
    Opened (front ++ '(' :: between) (front :: fronts)

theorem Opened.append {fronts : List (List Char)} (h : Opened text fronts) (hmore : Level more) :
    Opened (text ++ more) fronts := by
  cases h with
  | nil => exact .nil _
  | cons hfront hfronts hbetween =>
    rw [List.append_assoc]
    exact .cons hfront hfronts (hbetween.append hmore)

theorem Opened.tail {fronts : List (List Char)} (h : Opened text fronts) :
    Opened (text ++ [')']) fronts.tail := by
  cases h with
  | nil => exact .nil _
  | cons _ hfronts hbetween =>
    rw [List.append_assoc]
    exact hfronts.append (.parens hbetween .nil)

theorem Opened.length_lt {fronts : List (List Char)} (h : Opened text fronts) :
    ∀ front ∈ fronts, front.length < text.length := by
  induction h with
  | nil => nofun
  | @cons front between _ _ _ _ ih =>
    have hfront : front.length < (front ++ '(' :: between).length := by simp
    rw [List.forall_mem_cons]
    exact ⟨hfront, fun other hother => Nat.lt_trans (ih other hother) hfront⟩

/--
What a scan knows of the text behind it: its last string is still open exactly if the mode says so,
and the open parentheses are those before that string.
-/
inductive Behind : Scan → Prop
  | code {text : List Char} {fronts : List (List Char)} :
    Outside text → Opened text fronts → Behind ⟨.code, text, fronts⟩
  | string {outer inner : List Char} {fronts : List (List Char)} :
    Outside outer → Opened outer fronts → Inner inner →
    Behind ⟨.string, outer ++ '"' :: inner, fronts⟩
  | escaped {outer inner : List Char} {fronts : List (List Char)} :
    Outside outer → Opened outer fronts → Inner inner →
    Behind ⟨.escaped, outer ++ '"' :: inner ++ ['\\'], fronts⟩

theorem Behind.next {scan : Scan} (h : Behind scan) (c : Char) : Behind (scan.next c) := by
  cases h with
  | @code text fronts houtside hopened =>
    by_cases hquote : c = '"'
    . subst hquote
      exact .string houtside hopened .nil
    have houtside' : Outside (text ++ [c]) := houtside.append (.char hquote .nil)
    by_cases hleft : c = '('
    . subst hleft
      exact .code houtside' (.cons houtside hopened .nil)
    by_cases hright : c = ')'
    . subst hright
      exact .code houtside' hopened.tail
    . have hlevel : Level [c] := .char hleft hright hquote .nil
      have hnext : Scan.next ⟨.code, text, fronts⟩ c = ⟨.code, text ++ [c], fronts⟩ := by
        simp [Scan.next, Mode.next, hquote, hleft, hright]
      rw [hnext]
      exact .code houtside' (hopened.append hlevel)
  | @string outer inner fronts houtside hopened hinner =>
    by_cases hslash : c = '\\'
    . subst hslash
      exact .escaped houtside hopened hinner
    by_cases hquote : c = '"'
    . subst hquote
      -- The string is finished, so it can be added to what stands before it as one piece.
      have hstring := Outside.string hinner .nil
      have hlevel := Level.string hinner .nil
      have hnext : Scan.next ⟨.string, outer ++ '"' :: inner, fronts⟩ '"' =
          ⟨.code, outer ++ ('"' :: inner ++ ['"']), fronts⟩ := by
        simp [Scan.next, Mode.next]
      rw [hnext]
      exact .code (houtside.append hstring) (hopened.append hlevel)
    . have hnext : Scan.next ⟨.string, outer ++ '"' :: inner, fronts⟩ c =
          ⟨.string, outer ++ '"' :: (inner ++ [c]), fronts⟩ := by
        simp [Scan.next, Mode.next, hslash, hquote]
      rw [hnext]
      exact .string houtside hopened (hinner.append (.char hslash hquote .nil))
  | @escaped outer inner fronts houtside hopened hinner =>
    have hnext : Scan.next ⟨.escaped, outer ++ '"' :: inner ++ ['\\'], fronts⟩ c =
        ⟨.string, outer ++ '"' :: (inner ++ ['\\', c]), fronts⟩ := by
      simp [Scan.next, Mode.next]
    rw [hnext]
    exact .string houtside hopened (hinner.append (.escape c .nil))

theorem behind_scan (text : List Char) : Behind (scan text) := by
  induction text using List.reverseRecOn with
  | nil => exact .code .nil (.nil [])
  | append_singleton text c ih =>
    rw [scan_snoc]
    exact ih.next c

theorem Behind.of_code {scan : Scan} (h : Behind scan) (hmode : scan.mode = .code) :
    Outside scan.text ∧ Opened scan.text scan.fronts := by
  cases h with
  | code houtside hopened => exact ⟨houtside, hopened⟩
  | string => cases hmode
  | escaped => cases hmode

theorem Behind.length_lt {scan : Scan} (h : Behind scan) :
    ∀ front ∈ scan.fronts, front.length < scan.text.length := by
  intro front hfront
  cases h with
  | code _ hopened => exact hopened.length_lt front hfront
  | string _ hopened _ | escaped _ hopened _ =>
    have hlength := hopened.length_lt front hfront
    simp
    omega

theorem length_lt_of_mem_fronts (h : front ∈ (scan text).fronts) : front.length < text.length := by
  simpa using (behind_scan text).length_lt front h

theorem opened_scan (h : (scan text).mode = .code) : Opened text (scan text).fronts := by
  simpa using ((behind_scan text).of_code h).2

theorem outside_iff : Outside text ↔ (scan text).mode = .code := by
  constructor
  . intro h
    exact mode_foldl_outside h [] []
  . intro h
    simpa using ((behind_scan text).of_code h).1

/--
The scan finds the left parenthesis that a right one closes: it is the innermost one that is open.
-/
theorem closes_iff :
    Closes before front ↔
      (scan before).mode = .code ∧ (scan before).fronts.head? = some front := by
  constructor
  . intro h
    refine ⟨outside_iff.mp h.outside, ?_⟩
    obtain ⟨between, rfl, hfront, hbetween⟩ := h
    have hnext : (scan front).next '(' =
        ⟨.code, front ++ ['('], front :: (scan front).fronts⟩ := by
      simp [Scan.next, Mode.next, outside_iff.mp hfront]
    -- Behind the balanced text the scan is back at the parenthesis that it pushed.
    rw [scan_append, List.foldl_cons, hnext, foldl_level hbetween]
    rfl
  . rintro ⟨hmode, hhead⟩
    have hopened := opened_scan hmode
    obtain ⟨fronts, hfronts⟩ := List.head?_eq_some_iff.mp hhead
    rw [hfronts] at hopened
    cases hopened with
    | cons hfront _ hbetween => exact ⟨_, rfl, hfront, hbetween⟩

theorem Closes.unique {other : List Char} (h : Closes before front) (hother : Closes before other) :
    front = other :=
  Option.some.inj ((closes_iff.mp h).2.symm.trans (closes_iff.mp hother).2)

instance (text : List Char) : Decidable (Outside text) :=
  decidable_of_iff _ outside_iff.symm

instance (before front : List Char) : Decidable (Closes before front) :=
  decidable_of_iff _ closes_iff.symm

example : Closes "(a \")\" (b)".toList [] ∧ ¬ Closes "\"(\" ".toList ['"'] := by
  decide

end ChatLisp.Bracket
