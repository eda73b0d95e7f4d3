/-!
This module contains the range of the integers of the language, which are those of 64 bits with a
sign.
-/

namespace ChatLisp

def integerOfInt? (n : Int) : Option Int64 :=
  if -9223372036854775808 ≤ n ∧ n ≤ 9223372036854775807 then some (Int64.ofInt n) else none

theorem integerOfInt?_eq_some_iff {n : Int} {i : Int64} :
    integerOfInt? n = some i ↔ i.toInt = n := by
  constructor
  . intro h
    simp only [integerOfInt?, Option.ite_none_right_eq_some, Option.some.injEq] at h
    obtain ⟨⟨hlow, hhigh⟩, rfl⟩ := h
    rw [Int64.toInt_ofInt]
    apply Int.bmod_eq_of_le <;> simp only [Int64.size] <;> omega
  . rintro rfl
    have hlow := i.le_toInt
    have hhigh := i.toInt_lt
    simp [integerOfInt?]
    omega

end ChatLisp
