import ChatLisp.Proofs.Program.Refusal
import ChatLisp.Proofs.Source.Spans
import ChatLisp.Report

/-!
This module contains what the labels of reports point at. The offsets of an error count bytes, but a
label is placed by characters. So a label stands where its error does as long as there are only
characters of one byte before the error, and it is lost if the text that is marked has too many
bytes.
-/

namespace ChatLisp

namespace Place

theorem le_line_locate_go (number : Nat) (lines : List (List Char)) (offset : Nat) :
    number ≤ (locate.go number lines offset).line := by
  fun_induction locate.go number lines offset with
  | case1 => exact Nat.le_refl _
  | case2 number offset line next lines _ ih => exact Nat.le_of_succ_le ih
  | case3 => exact Nat.le_refl _

theorem locate_go_injective (number : Nat) (lines : List (List Char)) :
    Function.Injective (locate.go number lines) := by
  intro a b h
  induction lines generalizing number a b with
  | nil => simpa [locate.go] using h
  | cons line lines ih =>
    cases lines with
    | nil => simpa [locate.go] using h
    | cons next lines =>
      have hlater (offset : Nat) := le_line_locate_go (number + 1) (next :: lines) offset
      simp only [locate.go] at h
      split at h
      . split at h
        . simpa using h
        -- One of the offsets is in this line, the other one in a later line.
        . have := hlater (b - line.length)
          rw [← h] at this
          exact absurd this (Nat.not_succ_le_self number)
      . split at h
        . have := hlater (a - line.length)
          rw [h] at this
          exact absurd this (Nat.not_succ_le_self number)
        . have := ih (number + 1) h
          omega

theorem ofOffset_injective (text : List Char) : Function.Injective (ofOffset text) :=
  locate_go_injective 1 (lines text)

end Place

/--
The span of an error in the text that it comes from. An end that comes too early is at the end of
the text, an error of the evaluator concerns the whole text, and a text without an expression has no
error in it.
-/
def ProgramError.span? (text : String) : ProgramError → Option Span
  | token error => some error.span
  | parse error =>
    match error with
    | .unexpectedEnd _ => some (Report.endSpan text)
    | error => error.span?
  | eval _ => some (Report.wholeSpan text)

namespace Report

theorem isOf_wholeSpan (text : String) : (wholeSpan text).IsOf text.toList := by
  have hspan := Span.isOf_append [] text.toList []
  rw [byteLength_toList] at hspan
  simpa [wholeSpan] using hspan

theorem isOf_endSpan (text : String) : (endSpan text).IsOf text.toList := by
  have hend := (isOf_wholeSpan text).stop
  exact ⟨hend, hend, Nat.le_refl _⟩

theorem place_onSpan (text headline : String) (span : Span) (remark : String) :
    (onSpan text headline span remark).label.map Label.place =
      if canLabel text.toList.length span then some (Place.ofOffset text.toList span.start)
      else none := by
  simp only [onSpan]
  split
  . rfl
  . rfl

end Report

namespace Program

theorem isOf_of_parse_error {text : String} {e : SyntaxError} (h : parse text = .error e)
    (hne : e.toProgramError ≠ .parse .emptyInput) :
    ∃ span, e.toProgramError.span? text = some span ∧ span.IsOf text.toList := by
  cases e with
  | token error => exact ⟨error.span, rfl, isOf_of_tokenize_error (parse_eq_token_error_iff.mp h)⟩
  | parse error =>
    obtain ⟨tokens, htokens, hread⟩ := parse_eq_parse_error_iff.mp h
    have hspans := isOf_of_readAll_error htokens hread
    cases error with
    | unexpectedEnd expected => exact ⟨_, rfl, Report.isOf_endSpan text⟩
    | emptyInput => exact absurd rfl hne
    | unexpectedToken found => exact ⟨found.span, rfl, hspans _ rfl⟩
    | invalidDot span => exact ⟨span, rfl, hspans _ rfl⟩
    | emptyQuote span => exact ⟨span, rfl, hspans _ rfl⟩

theorem isOf_of_run_error {depth : Nat} {text : String} {scope : ScopeId} {store : Store}
    {e : ProgramError} (h : (run depth text scope store).outcome = .error e)
    (hne : e ≠ .parse .emptyInput) :
    ∃ span, e.span? text = some span ∧ span.IsOf text.toList := by
  cases hparse : parse text with
  | error error =>
    have hrefused := refused_of_parse_error depth scope store hparse
    cases h.symm.trans hrefused.outcome
    exact isOf_of_parse_error hparse hne
  | ok exprs =>
    cases exprs with
    | nil =>
      have hrefused := refused_of_parse_nil depth scope store hparse
      cases h.symm.trans hrefused.outcome
      exact absurd rfl hne
    | cons first exprs =>
      obtain hend | ⟨value, hvalue⟩ | ⟨error, heval⟩ :=
        outcome_of_parse_ok depth scope store hparse (List.cons_ne_nil first exprs)
      . cases h.symm.trans hend
      . cases h.symm.trans hvalue
      . cases h.symm.trans heval
        exact ⟨_, rfl, Report.isOf_wholeSpan text⟩

end Program

namespace ProgramError

/--
The report keeps its label, and the label is at the character that stands where the error starts.
-/
def IsPointedAt (text : String) (e : ProgramError) : Prop :=
  ∃ front back, text.toList = front ++ back ∧
    (e.span? text).map Span.start = some (byteLength front) ∧
    (e.report text).label.map Label.place = some (Place.ofOffset text.toList front.length)

theorem place_report {text : String} {e : ProgramError} {span : Span}
    (h : e.span? text = some span) :
    (e.report text).label.map Label.place =
      if Report.canLabel text.toList.length span then some (Place.ofOffset text.toList span.start)
      else none := by
  cases e with
  | token error =>
    cases h
    exact Report.place_onSpan ..
  | parse error =>
    cases error with
    | emptyInput => cases h
    | _ =>
      cases h
      exact Report.place_onSpan ..
  | eval error =>
    cases h
    exact Report.place_onSpan ..

/--
An error is pointed at exactly if all characters before it take one byte, and no more bytes are
marked than there are characters left of the text, but for one.
-/
theorem isPointedAt_iff {text : String} {e : ProgramError} {front word back : List Char}
    (htext : text.toList = front ++ word ++ back)
    (hspan : e.span? text = some ⟨byteLength front, byteLength front + byteLength word⟩) :
    e.IsPointedAt text ↔
      byteLength front = front.length ∧ byteLength word ≤ word.length + back.length + 1 := by
  have hlength : text.toList.length = front.length + word.length + back.length := by
    simp [htext, Nat.add_assoc]
  have hcan (hfront : byteLength front = front.length) :
      Report.canLabel text.toList.length
          ⟨byteLength front, byteLength front + byteLength word⟩ = true ↔
        byteLength word ≤ word.length + back.length + 1 := by
    simp only [Report.canLabel, Bool.and_eq_true, Bool.or_eq_true, decide_eq_true_eq, beq_iff_eq]
    omega
  have hplace := place_report hspan
  constructor
  . rintro ⟨front', back', htext', hstart, hlabel⟩
    rw [hspan, Option.map_some, Option.some.injEq] at hstart
    rw [hplace, Option.ite_none_right_eq_some, Option.some.injEq] at hlabel
    have happend : front ++ (word ++ back) = front' ++ back' := by
      rw [← List.append_assoc, ← htext, htext']
    obtain rfl := front_eq_of_byteLength_eq happend hstart
    -- The label is at the place of the byte offset, taken as a number of characters.
    have hbytes := Place.ofOffset_injective _ hlabel.2
    exact ⟨hbytes, (hcan hbytes).mp hlabel.1⟩
  . rintro ⟨hbytes, hword⟩
    refine ⟨front, word ++ back, by simp [htext], by simp [hspan], ?_⟩
    rw [hplace, if_pos ((hcan hbytes).mpr hword), hbytes]

end ProgramError

namespace Program

/--
The error of a program is a stretch of its text. The report points at this stretch exactly if all
characters before it take one byte each, and the stretch has at most one byte more than there are
characters from its start to the end of the text.
-/
theorem error_isPointedAt_iff {depth : Nat} {text : String} {scope : ScopeId} {store : Store}
    {e : ProgramError} (h : (run depth text scope store).outcome = .error e)
    (hne : e ≠ .parse .emptyInput) :
    ∃ front word back, text.toList = front ++ word ++ back ∧
      e.span? text = some ⟨byteLength front, byteLength front + byteLength word⟩ ∧
      (e.IsPointedAt text ↔
        byteLength front = front.length ∧ byteLength word ≤ word.length + back.length + 1) := by
  obtain ⟨span, hspan, hof⟩ := isOf_of_run_error h hne
  obtain ⟨front, word, back, htext, rfl⟩ := hof.exists_word
  exact ⟨front, word, back, htext, hspan, ProgramError.isPointedAt_iff htext hspan⟩

/--
A parenthesis too many, with a character of two bytes behind it.
-/
theorem error_isPointedAt_iff_stray :
    let text := "x\n ) é"
    let e : ProgramError := .parse (.unexpectedToken ⟨.rightParen, ⟨3, 4⟩⟩)
    (runFresh 0 text).outcome = .error e ∧ e ≠ .parse .emptyInput ∧
    (∃ front word back, text.toList = front ++ word ++ back ∧
      e.span? text = some ⟨byteLength front, byteLength front + byteLength word⟩ ∧
      (e.IsPointedAt text ↔
        byteLength front = front.length ∧ byteLength word ≤ word.length + back.length + 1)) ∧
    (e.report text).label.map Label.place = some ⟨2, 2⟩ := by
  intro text e
  have hrun : (runFresh 0 text).outcome = .error e := by cbv
  have hne : e ≠ .parse .emptyInput := by simp [e]
  exact ⟨hrun, hne, error_isPointedAt_iff hrun hne, by cbv⟩

/--
Behind a character of two bytes, the label stands one column too far, and it is lost if the error is
at the end of the text.
-/
theorem error_not_isPointedAt :
    (∃ e, (runFresh 0 "\"é\" ) x").outcome = .error e ∧
      e.span? "\"é\" ) x" = some ⟨byteLength "\"é\" ".toList, byteLength "\"é\" )".toList⟩ ∧
      Place.ofOffset "\"é\" ) x".toList "\"é\" ".toList.length = ⟨1, 5⟩ ∧
      (e.report "\"é\" ) x").label.map Label.place = some ⟨1, 6⟩ ∧
      ¬ e.IsPointedAt "\"é\" ) x") ∧
    ∃ e, (runFresh 0 "(\"é\"").outcome = .error e ∧
      e.span? "(\"é\"" = some ⟨byteLength "(\"é\"".toList, byteLength "(\"é\"".toList⟩ ∧
      (e.report "(\"é\"").label = none ∧ ¬ e.IsPointedAt "(\"é\"" := by
  constructor
  . refine ⟨.parse (.unexpectedToken ⟨.rightParen, ⟨5, 6⟩⟩), by cbv, by decide, by cbv, by cbv, ?_⟩
    rw [ProgramError.isPointedAt_iff (show _ = "\"é\" ".toList ++ ")".toList ++ " x".toList by rfl)
      (by rfl)]
    decide
  . refine ⟨.parse (.unexpectedEnd .rightParen), by cbv, by decide, by cbv, ?_⟩
    rw [ProgramError.isPointedAt_iff (show _ = "(\"é\"".toList ++ [] ++ [] by rfl) (by rfl)]
    decide

end Program

end ChatLisp
