import ChatLisp.Bracket.Highlight
import ChatLisp.Proofs.Bracket.Pairs

/-!
This module contains what the highlighter shows. It adds colours and nothing else: what is shown is
the line, each character in a colour that the strings and the pairs of parentheses decide. The
offset that the highlighter keeps of an open parenthesis is always the place where it shows it.
-/

namespace ChatLisp.Bracket

variable {cursor : Nat} {line more front right before after : List Char} {c : Char}
  {colour : Colour} {colours : List Colour} {painter : Painter}

/--
The text with each of its characters in the colour for it.
-/
def paintAll (colours : List Colour) (text : List Char) : List Char :=
  (List.zipWith Colour.paint colours text).flatten

/--
The right parenthesis behind `right` stands directly before the cursor, and it closes the left one
behind `front`.
-/
structure ShownPair (cursor : Nat) (line front right : List Char) : Prop where
  stands : ∃ after, line = right ++ ')' :: after
  closes : Closes right front
  touches : byteLength right + 1 = cursor

/--
The colour of the character `c` that stands behind `before` in the line.
-/
structure Shows (cursor : Nat) (line before : List Char) (c : Char) (colour : Colour) : Prop where
  string : colour = .string ↔ ¬ Outside before ∨ c = '"'
  unmatched : colour = .unmatched ↔ c = ')' ∧ Outside before ∧ ∀ front, ¬ Closes before front
  partner : colour = .partner ↔
    ∃ front right, ShownPair cursor line front right ∧ (before = front ∨ before = right)

structure Colouring (cursor : Nat) (line : List Char) (colours : List Colour) : Prop where
  length : colours.length = line.length
  shows : ∀ before c after colour, line = before ++ c :: after →
    colours[before.length]? = some colour → Shows cursor line before c colour

theorem inString_iff :
    (scan before).mode.inString c ↔ ¬ Outside before ∨ c = '"' := by
  simp [Mode.inString, outside_iff]

section PaintAll

@[simp]
theorem paint_plain (c : Char) : Colour.plain.paint c = [c] :=
  rfl

@[simp]
theorem paintAll_cons (colour : Colour) (colours : List Colour) (c : Char) (text : List Char) :
    paintAll (colour :: colours) (c :: text) = colour.paint c ++ paintAll colours text :=
  rfl

theorem paintAll_snoc (h : colours.length = line.length) (colour : Colour) (c : Char) :
    paintAll (colours ++ [colour]) (line ++ [c]) = paintAll colours line ++ colour.paint c := by
  simp [paintAll, List.zipWith_append h]

theorem paintAll_take (colours : List Colour) (text : List Char) :
    paintAll (colours.take text.length) text = paintAll colours text := by
  induction text generalizing colours with
  | nil => simp [paintAll]
  | cons c text ih =>
    cases colours with
    | nil => rfl
    | cons colour colours => simp [ih]

theorem paintAll_append (h : front.length ≤ colours.length) (more : List Colour) :
    paintAll (colours ++ more) front = paintAll colours front := by
  rw [← paintAll_take, List.take_append_of_le_length h, paintAll_take]

theorem paintAll_set {n : Nat} (h : front.length ≤ n) (colours : List Colour) (colour : Colour) :
    paintAll (colours.set n colour) front = paintAll colours front := by
  rw [← paintAll_take, List.take_set_of_le h, paintAll_take]

theorem paintAll_split (h : colours[front.length]? = some colour) (c : Char)
    (back : List Char) :
    paintAll colours (front ++ c :: back) =
      paintAll colours front ++
        (colour.paint c ++ paintAll (colours.drop (front.length + 1)) back) := by
  induction front generalizing colours with
  | nil =>
    obtain ⟨colours, rfl⟩ := List.head?_eq_some_iff.mp (List.head?_eq_getElem?.trans h)
    rfl
  | cons d front ih =>
    cases colours with
    | nil => cases h
    | cons first colours =>
      rw [List.cons_append, paintAll_cons, ih h, paintAll_cons, List.append_assoc]
      rfl

theorem replaceByte?_append {new : List Char} (h : c.utf8Size = 1) (front back : List Char) :
    replaceByte? (byteLength front) new (front ++ c :: back) = some (front ++ (new ++ back)) := by
  induction front with
  | nil => simp [replaceByte?, h]
  | cons d front ih =>
    have hpos := d.utf8Size_pos
    rw [byteLength_cons, List.cons_append, replaceByte?, if_neg (by omega), if_pos (by omega),
      Nat.add_sub_cancel_left, ih]
    rfl

theorem replaceByte?_paintAll (h : colours[front.length]? = some .plain) (hc : c.utf8Size = 1)
    (colour : Colour) (back more : List Char) :
    replaceByte? (byteLength (paintAll colours front)) (colour.paint c)
        (paintAll colours (front ++ c :: back) ++ more) =
      some (paintAll (colours.set front.length colour) (front ++ c :: back) ++ more) := by
  obtain ⟨hlength, -⟩ := List.getElem?_eq_some_iff.mp h
  rw [paintAll_split h, paintAll_split (List.getElem?_set_self hlength), List.append_assoc,
    paintAll_set (Nat.le_refl _), List.drop_set_of_lt (Nat.lt_succ_self _)]
  simpa using replaceByte?_append hc _ _

end PaintAll

section Colouring

theorem split_of_snoc {d : Char} (h : line ++ [c] = before ++ d :: after) :
    (line = before ∧ c = d) ∨ ∃ after, line = before ++ d :: after := by
  rcases List.eq_nil_or_concat after with rfl | ⟨after, last, rfl⟩
  . obtain ⟨rfl, hlast⟩ := List.append_inj' h rfl
    exact .inl ⟨rfl, (List.cons.inj hlast).1⟩
  . rw [List.concat_eq_append, ← List.cons_append, ← List.append_assoc] at h
    exact .inr ⟨after, (List.append_inj' h rfl).1⟩

theorem ShownPair.append (h : ShownPair cursor line front right) (more : List Char) :
    ShownPair cursor (line ++ more) front right := by
  obtain ⟨⟨after, rfl⟩, hcloses, htouches⟩ := h
  exact ⟨⟨after ++ more, by simp⟩, hcloses, htouches⟩

theorem ShownPair.length_lt (h : ShownPair cursor line front right) :
    right.length < line.length := by
  obtain ⟨after, rfl⟩ := h.stands
  simp

theorem ShownPair.cursor_le (h : ShownPair cursor line front right) :
    cursor ≤ byteLength line := by
  obtain ⟨⟨after, rfl⟩, _, rfl⟩ := h
  have hpos := Char.utf8Size_pos ')'
  simp
  omega

theorem ShownPair.of_snoc (h : ShownPair cursor (line ++ [c]) front right) :
    ShownPair cursor line front right ∨ (c = ')' ∧ line = right) := by
  obtain ⟨⟨after, hsplit⟩, hcloses, htouches⟩ := h
  rcases split_of_snoc hsplit with ⟨hline, hc⟩ | hline
  . exact .inr ⟨hc, hline⟩
  . exact .inl ⟨hline, hcloses, htouches⟩

theorem shownPair_last_iff :
    (∃ front right, ShownPair cursor (line ++ [c]) front right ∧ (line = front ∨ line = right)) ↔
      c = ')' ∧ byteLength line + 1 = cursor ∧ ∃ front, Closes line front := by
  constructor
  . rintro ⟨front, right, hpair, hline⟩
    have hright : right.length ≤ line.length := by simpa [Nat.lt_succ_iff] using hpair.length_lt
    rcases hline with rfl | rfl
    . exact absurd hpair.closes.length_lt (by omega)
    . rcases hpair.of_snoc with hpair' | ⟨hc, _⟩
      . exact absurd hpair'.length_lt (by omega)
      . exact ⟨hc, hpair.touches, front, hpair.closes⟩
  . rintro ⟨rfl, htouches, front, hcloses⟩
    exact ⟨front, line, ⟨⟨[], rfl⟩, hcloses, htouches⟩, .inr rfl⟩

theorem colouring_snoc (hlength : colours.length = line.length)
    (hline : ∀ before d after colour, line = before ++ d :: after →
      colours[before.length]? = some colour → Shows cursor (line ++ [c]) before d colour)
    (hlast : Shows cursor (line ++ [c]) line c colour) :
    Colouring cursor (line ++ [c]) (colours ++ [colour]) := by
  constructor
  . simp [hlength]
  . intro before d after colour' hsplit hcolour
    rcases split_of_snoc hsplit with ⟨rfl, rfl⟩ | ⟨after, rfl⟩
    . rw [← hlength, List.getElem?_concat_length] at hcolour
      cases hcolour
      exact hlast
    . rw [List.getElem?_append_left (by simp [hlength])] at hcolour
      exact hline before d after colour' rfl hcolour

theorem shows_last (hstring : colour = .string ↔ ¬ Outside line ∨ c = '"')
    (hunmatched : colour = .unmatched ↔ c = ')' ∧ Outside line ∧ ∀ front, ¬ Closes line front)
    (hpartner : colour = .partner ↔
      c = ')' ∧ byteLength line + 1 = cursor ∧ ∃ front, Closes line front) :
    Shows cursor (line ++ [c]) line c colour :=
  ⟨hstring, hunmatched, hpartner.trans shownPair_last_iff.symm⟩

theorem shows_string (h : ¬ Outside line ∨ c = '"') :
    Shows cursor (line ++ [c]) line c .string := by
  have hright : c = ')' → ¬ Outside line := by
    rintro rfl
    exact h.resolve_right (by decide)
  apply shows_last
  . simpa using h
  . constructor
    . nofun
    . rintro ⟨hc, houtside, _⟩
      exact absurd houtside (hright hc)
  . constructor
    . nofun
    . rintro ⟨hc, _, front, hcloses⟩
      exact absurd hcloses.outside (hright hc)

theorem shows_plain (houtside : Outside line) (hquote : c ≠ '"')
    (hright : c = ')' → byteLength line + 1 ≠ cursor ∧ ∃ front, Closes line front) :
    Shows cursor (line ++ [c]) line c .plain := by
  apply shows_last
  . simp [houtside, hquote]
  . constructor
    . nofun
    . rintro ⟨hc, _, hnone⟩
      obtain ⟨_, front, hcloses⟩ := hright hc
      exact absurd hcloses (hnone front)
  . constructor
    . nofun
    . rintro ⟨hc, htouches, _⟩
      exact absurd htouches (hright hc).1

theorem Colouring.append (h : Colouring cursor line colours)
    (hlast : Shows cursor (line ++ [c]) line c colour) (hcolour : colour ≠ .partner) :
    Colouring cursor (line ++ [c]) (colours ++ [colour]) := by
  refine colouring_snoc h.length (fun before d after colour' hsplit hcolour' => ?_) hlast
  obtain ⟨hstring, hunmatched, hpartner⟩ := h.shows before d after colour' hsplit hcolour'
  refine ⟨hstring, hunmatched, hpartner.trans ?_⟩
  constructor
  . rintro ⟨front, right, hpair, hbefore⟩
    exact ⟨front, right, hpair.append [c], hbefore⟩
  . rintro ⟨front, right, hpair, hbefore⟩
    rcases hpair.of_snoc with hpair' | ⟨_, hline⟩
    . exact ⟨front, right, hpair', hbefore⟩
    . exact absurd (hlast.partner.mpr ⟨front, right, hpair, .inr hline⟩) hcolour

theorem Colouring.pair (h : Colouring cursor line colours) (hcloses : Closes line front)
    (htouches : byteLength line + 1 = cursor) :
    Colouring cursor (line ++ [')']) (colours.set front.length .partner ++ [.partner]) := by
  have hpair : ShownPair cursor (line ++ [')']) front line := ⟨⟨[], rfl⟩, hcloses, htouches⟩
  have honly : ∀ left right, ShownPair cursor (line ++ [')']) left right →
      left = front ∧ right = line := by
    intro left right hother
    rcases hother.of_snoc with hother' | ⟨_, rfl⟩
    . exact absurd hother'.cursor_le (by omega)
    . exact ⟨hother.closes.unique hcloses, rfl⟩
  refine colouring_snoc (by simp [h.length]) (fun before d after colour hsplit hcolour => ?_) ?_
  -- The only character of the line whose colour is new is the one behind `front`.
  . by_cases hfront : front.length = before.length
    . obtain ⟨between, hline, houtside, _⟩ := hcloses
      obtain ⟨rfl, hd⟩ := List.append_inj (hsplit.symm.trans hline) hfront.symm
      cases hd
      have hlength : before.length < colours.length := by simp [h.length, hsplit]
      rw [List.getElem?_set_self hlength] at hcolour
      cases hcolour
      constructor
      . simp [houtside]
      . simp
      . simpa using ⟨_, _, hpair, .inl rfl⟩
    . rw [List.getElem?_set_ne hfront] at hcolour
      obtain ⟨hstring, hunmatched, hpartner⟩ := h.shows before d after colour hsplit hcolour
      refine ⟨hstring, hunmatched, hpartner.trans ?_⟩
      constructor
      . rintro ⟨_, _, hpair', _⟩
        exact absurd hpair'.cursor_le (by omega)
      . rintro ⟨left, right, hpair', hbefore⟩
        obtain ⟨rfl, rfl⟩ := honly left right hpair'
        rcases hbefore with rfl | rfl
        . exact absurd rfl hfront
        . simp at hsplit
  . apply shows_last
    . simp [hcloses.outside]
    . simpa [hcloses.outside] using ⟨front, hcloses⟩
    . simpa using ⟨htouches, front, hcloses⟩

end Colouring

section Painter

/--
What the highlighter knows behind the line. Each offset that it keeps is the length of what it shows
for the text before an open parenthesis, which it shows bare.
-/
structure Painted (cursor : Nat) (line : List Char) (painter : Painter) (colours : List Colour) :
    Prop where
  colouring : Colouring cursor line colours
  mode : painter.mode = (scan line).mode
  position : painter.position = byteLength line
  shown : painter.shown = paintAll colours line
  opened : painter.opened = (scan line).fronts.map fun front => byteLength (paintAll colours front)
  bare : ∀ front ∈ (scan line).fronts, colours[front.length]? = some .plain

theorem painted_start (cursor : Nat) : Painted cursor [] .start [] where
  colouring := ⟨rfl, fun before c after colour hsplit => by simp at hsplit⟩
  mode := rfl
  position := rfl
  shown := rfl
  opened := rfl
  bare := nofun

theorem Painted.put (h : Painted cursor line painter colours)
    (hlast : Shows cursor (line ++ [c]) line c colour) (hcolour : colour ≠ .partner)
    (hfronts : ∀ front ∈ (scan (line ++ [c])).fronts,
      front ∈ (scan line).fronts ∨ (front = line ∧ colour = .plain))
    {next : Painter} {opened : List Nat} (hnext : next = { painter.put colour c with opened })
    (hopened : opened =
      (scan (line ++ [c])).fronts.map fun front => byteLength (paintAll colours front)) :
    Painted cursor (line ++ [c]) next (colours ++ [colour]) where
  colouring := h.colouring.append hlast hcolour
  mode := by rw [hnext, mode_scan_snoc, ← h.mode, Painter.put]
  position := by simp [hnext, Painter.put, h.position]
  shown := by rw [hnext, paintAll_snoc h.colouring.length, ← h.shown, Painter.put]
  opened := by
    rw [hnext, hopened]
    apply List.map_congr_left
    intro front hfront
    have hlength := length_lt_of_mem_fronts hfront
    rw [List.length_append, List.length_singleton, Nat.lt_succ_iff, ← h.colouring.length]
      at hlength
    rw [paintAll_append hlength]
  bare := by
    intro front hfront
    rcases hfronts front hfront with hfront | ⟨rfl, rfl⟩
    . have hlength := length_lt_of_mem_fronts hfront
      rw [← h.colouring.length] at hlength
      rw [List.getElem?_append_left hlength, h.bare front hfront]
    . rw [← h.colouring.length, List.getElem?_concat_length]

theorem Painted.keep (h : Painted cursor line painter colours)
    (hlast : Shows cursor (line ++ [c]) line c colour) (hcolour : colour ≠ .partner)
    (hfronts : (scan (line ++ [c])).fronts = (scan line).fronts) :
    Painted cursor (line ++ [c]) (painter.put colour c) (colours ++ [colour]) := by
  refine h.put hlast hcolour (fun front hfront => .inl ?_) rfl ?_
  . rw [← hfronts]
    exact hfront
  . rw [hfronts]
    exact h.opened

theorem Painted.pair (h : Painted cursor line painter colours) (hmode : (scan line).mode = .code)
    {fronts : List (List Char)} (hfronts : (scan line).fronts = front :: fronts)
    (htouches : byteLength line + 1 = cursor) :
    ∃ shown,
      replaceByte? (byteLength (paintAll colours front)) (Colour.partner.paint '(')
        (painter.put .partner ')').shown = some shown ∧
      Painted cursor (line ++ [')'])
        { painter.put .partner ')' with
          opened := fronts.map fun front => byteLength (paintAll colours front), shown }
        (colours.set front.length .partner ++ [.partner]) := by
  have hcloses : Closes line front := closes_iff.mpr ⟨hmode, by simp [hfronts]⟩
  have hbare : colours[front.length]? = some .plain := h.bare front (by simp [hfronts])
  -- What is shown before the outer parentheses does not change with the colour of the inner one.
  have houter : ∀ outer ∈ fronts, outer.length < front.length := by
    have hopened := opened_scan hmode
    rw [hfronts] at hopened
    cases hopened with
    | cons _ hopened _ => exact hopened.length_lt
  have hfronts' : (scan (line ++ [')'])).fronts = fronts := by
    rw [fronts_snoc_right hmode, hfronts, List.tail_cons]
  have hlength : front.length < colours.length := by
    rw [h.colouring.length]
    exact hcloses.length_lt
  refine ⟨paintAll (colours.set front.length .partner) line ++ Colour.partner.paint ')', ?_, ?_⟩
  . obtain ⟨between, rfl, _⟩ := hcloses
    rw [Painter.put, h.shown]
    exact replaceByte?_paintAll hbare rfl .partner between _
  . constructor
    . exact h.colouring.pair hcloses htouches
    . rw [mode_scan_snoc, ← h.mode, Painter.put]
    . simp [Painter.put, h.position]
    . rw [paintAll_snoc (by simp [h.colouring.length])]
    . rw [hfronts']
      apply List.map_congr_left
      intro outer houter'
      have hlt := houter outer houter'
      rw [paintAll_append (by rw [List.length_set]; omega), paintAll_set (Nat.le_of_lt hlt)]
    . rw [hfronts']
      intro outer houter'
      have hlt := houter outer houter'
      rw [List.getElem?_append_left (by rw [List.length_set]; omega),
        List.getElem?_set_ne (Nat.ne_of_gt hlt)]
      exact h.bare outer (by simp [hfronts, houter'])

theorem Painted.next_right (h : Painted cursor line painter colours) (houtside : Outside line)
    (hstring : ¬ painter.mode.inString ')') :
    ∃ painter' colours', painter.next cursor ')' = some painter' ∧
      Painted cursor (line ++ [')']) painter' colours' := by
  have hmode := outside_iff.mp houtside
  have hfronts' := fronts_snoc_right hmode
  rw [Painter.next, if_neg hstring, if_neg (by decide), if_pos rfl, h.opened]
  cases hfronts : (scan line).fronts with
  | nil =>
    rw [hfronts] at hfronts'
    have hnone : ∀ front, ¬ Closes line front := by simp [closes_iff, hfronts]
    have hstray : Shows cursor (line ++ [')']) line ')' .unmatched := by
      apply shows_last
      . simp [houtside]
      . simp [houtside, hnone]
      . simp [hnone]
    exact ⟨_, _, rfl, h.keep hstray nofun (hfronts'.trans hfronts.symm)⟩
  | cons front fronts =>
    rw [hfronts] at hfronts'
    have hcloses : Closes line front := closes_iff.mpr ⟨hmode, by simp [hfronts]⟩
    rw [List.map_cons]
    dsimp only
    by_cases htouches : byteLength line + 1 = cursor
    . obtain ⟨shown, hshown, hpainted⟩ := h.pair hmode hfronts htouches
      rw [h.position, if_pos htouches, hshown]
      exact ⟨_, _, rfl, hpainted⟩
    . rw [h.position, if_neg htouches]
      have hplain : Shows cursor (line ++ [')']) line ')' .plain :=
        shows_plain houtside (by decide) fun _ => ⟨htouches, front, hcloses⟩
      refine ⟨_, colours ++ [.plain], rfl, h.put hplain nofun (fun outer houter => ?_) rfl ?_⟩
      . rw [hfronts'] at houter
        exact .inl (by rw [hfronts]; exact List.mem_of_mem_tail houter)
      . rw [hfronts']
        rfl

theorem Painted.next (h : Painted cursor line painter colours) (c : Char) :
    ∃ painter' colours', painter.next cursor c = some painter' ∧
      Painted cursor (line ++ [c]) painter' colours' := by
  have hin : painter.mode.inString c ↔ ¬ Outside line ∨ c = '"' := by
    rw [h.mode]
    exact inString_iff
  by_cases hstring : painter.mode.inString c
  . rw [Painter.next, if_pos hstring]
    rw [hin] at hstring
    have hfronts : (scan (line ++ [c])).fronts = (scan line).fronts := by
      apply fronts_snoc_other
      intro hmode
      obtain rfl := hstring.resolve_left (not_not.mpr (outside_iff.mpr hmode))
      decide
    exact ⟨_, _, rfl, h.keep (shows_string hstring) nofun hfronts⟩
  have hcode := hstring
  rw [hin, not_or, not_not] at hcode
  obtain ⟨houtside, hquote⟩ := hcode
  by_cases hright : c = ')'
  . subst hright
    exact h.next_right houtside hstring
  have hplain : Shows cursor (line ++ [c]) line c .plain :=
    shows_plain houtside hquote fun hc => absurd hc hright
  rw [Painter.next, if_neg hstring]
  by_cases hleft : c = '('
  . subst hleft
    have hfronts := fronts_snoc_left (outside_iff.mp houtside)
    rw [if_pos rfl]
    refine ⟨_, colours ++ [.plain], rfl, h.put hplain nofun (fun front hfront => ?_) rfl ?_⟩
    . rw [hfronts] at hfront
      rcases List.mem_cons.mp hfront with rfl | hfront
      . exact .inr ⟨rfl, rfl⟩
      . exact .inl hfront
    . rw [hfronts, h.shown, h.opened, List.map_cons]
  . rw [if_neg hleft, if_neg hright]
    exact ⟨_, _, rfl, h.keep hplain nofun (fronts_snoc_other fun _ => ⟨hleft, hright⟩)⟩

theorem painted_run (cursor : Nat) (line : List Char) :
    ∃ painter colours, Painter.run cursor line = some painter ∧
      Painted cursor line painter colours := by
  induction line using List.reverseRecOn with
  | nil => exact ⟨_, _, rfl, painted_start cursor⟩
  | append_singleton line c ih =>
    obtain ⟨painter, colours, hrun, hpainted⟩ := ih
    obtain ⟨painter', colours', hnext, hpainted'⟩ := hpainted.next c
    refine ⟨painter', colours', ?_, hpainted'⟩
    rw [Painter.run] at hrun ⊢
    rw [List.foldlM_append, hrun, Option.bind_eq_bind, Option.bind_some, List.foldlM_cons, hnext]
    rfl

end Painter

/--
The highlighter adds colours to the line and nothing else, and it never fails to find a partner that
it has to show anew. A character is green if it belongs to a string, a right parenthesis outside of
strings is red if it closes nothing, and the right parenthesis before the cursor and the left one
that it closes are blue. Behind the line, the innermost offset that is kept is the place where the
left parenthesis is shown that a right one would close.
-/
theorem highlight_colours (line : List Char) (cursor : Nat) :
    ∃ painter colours, Painter.run cursor line = some painter ∧
      Colouring cursor line colours ∧
      highlight line cursor = paintAll colours line ∧
      painter.shown = paintAll colours line ∧
      (Outside line → painter.opened = [] → ∀ front, ¬ Closes line front) ∧
      ∀ offset opened, Outside line → painter.opened = offset :: opened →
        ∃ front between, line = front ++ '(' :: between ∧ Closes line front ∧
          offset = byteLength (paintAll colours front) ∧
          painter.shown = paintAll colours front ++
            '(' :: paintAll (colours.drop (front.length + 1)) between := by
  obtain ⟨painter, colours, hrun, h⟩ := painted_run cursor line
  refine ⟨painter, colours, hrun, h.colouring, ?_, h.shown, ?_, ?_⟩
  . rw [highlight, hrun, ← h.shown]
    rfl
  . intro houtside hopened front
    rw [h.opened, List.map_eq_nil_iff] at hopened
    simp [closes_iff, hopened]
  . intro offset opened houtside hopened
    rw [h.opened, List.map_eq_cons_iff] at hopened
    obtain ⟨front, fronts, hfronts, rfl, _⟩ := hopened
    have hcloses : Closes line front := closes_iff.mpr ⟨outside_iff.mp houtside, by simp [hfronts]⟩
    have hbare := h.bare front (by simp [hfronts])
    have hsplit := paintAll_split hbare '('
    have ⟨between, hline, _⟩ := hcloses
    refine ⟨front, between, hline, hcloses, rfl, ?_⟩
    rw [h.shown, hline, hsplit]
    rfl

example :
    highlight "(é) )".toList 4 =
      "\x1b[1;34m(\x1b[0mé\x1b[1;34m)\x1b[0m \x1b[31m)\x1b[0m".toList := by
  decide

end ChatLisp.Bracket
