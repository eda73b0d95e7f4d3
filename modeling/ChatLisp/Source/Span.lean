/-!
This module contains the spans with which tokens and errors point into the text they come from.
-/

namespace ChatLisp

/--
A stretch of a text, given by offsets into its UTF-8 form. `stop` is the first offset behind it.
-/
structure Span where
  start : Nat
  stop : Nat
deriving DecidableEq, Inhabited

namespace Span

def merge (a b : Span) : Span :=
  ⟨min a.start b.start, max a.stop b.stop⟩

def text (s : Span) : String :=
  toString s.start ++ ".." ++ toString s.stop

theorem merge_eq_of_le {a b : Span} (hstart : a.start ≤ b.start) (hstop : a.stop ≤ b.stop) :
    a.merge b = ⟨a.start, b.stop⟩ := by
  simp [merge, Nat.min_eq_left hstart, Nat.max_eq_right hstop]

end Span

end ChatLisp
