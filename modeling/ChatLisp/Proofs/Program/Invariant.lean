import ChatLisp.Proofs.Eval.Invariant
import ChatLisp.Proofs.Program.Agreement

/-!
This module contains the invariants of programs. A program keeps what every evaluation of its
expressions keeps, since a text is read as expressions without closures.
-/

namespace ChatLisp

namespace Expr

theorem IsElem.captures_eq_nil {e : Expr} (h : e.IsElem) : e.captures = [] := by
  induction e with
  | cons car cdr hcar hcdr => rw [captures, hcar h.1, hcdr h.2, List.append_nil]
  | quoted inner ih =>
    obtain rfl | h := h
    . rfl
    . exact ih h
  | closure _ _ _ _ => exact absurd h id
  | sequence _ => exact absurd h id
  | _ => rfl

theorem IsPhrase.captures_eq_nil {e : Expr} (h : e.IsPhrase) : e.captures = [] := by
  obtain rfl | h := h
  . rfl
  . exact h.captures_eq_nil

theorem IsPhrase.within {e : Expr} (h : e.IsPhrase) (size : Nat) : e.Within size := by
  rw [Within, h.captures_eq_nil]
  exact List.forall_mem_nil _

end Expr

namespace Program

open StoreM

variable {inv : Eval.Invariant} {size : Nat} {scope : ScopeId}

theorem isPhrase_exprs (text : String) : ∀ e ∈ exprs text, e.IsPhrase := by
  unfold exprs
  split
  . next read hparse => exact isPhrase_of_parse hparse
  . exact List.forall_mem_nil _

theorem keeps_run {depth : Nat} {text : String} (hcode : ∀ e ∈ exprs text, inv.Code depth e)
    (hscope : scope < size) :
    Keeps inv size inv.Sound (run depth text scope) := by
  unfold run
  split
  . exact keeps_fail _
  . next tokens htokens =>
    apply (keeps_report (by simp)).bind
    intro more _ hle _
    split
    . exact keeps_fail _
    . exact keeps_fail _
    . next read _ hread =>
      have hparse : parse text = .ok read := parse_eq_ok_iff.mpr ⟨tokens, htokens, hread⟩
      have hphrases := isPhrase_exprs text
      rw [exprs, hparse] at hcode hphrases
      unfold runExprs
      apply (keeps_report (by simp)).bind
      intro most _ hmost _
      apply Keeps.mapError
      have hlt := Nat.lt_of_lt_of_le hscope (hle.trans hmost)
      apply Eval.keeps_sequence (fun _ _ _ => inv.keeps_evaluate depth) hlt
      intro e he
      exact ⟨(hphrases e he).within most, hcode e he⟩

end Program

end ChatLisp
