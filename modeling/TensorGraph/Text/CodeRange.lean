/-!
# Classes of characters as ranges

A class of characters is a table of closed ranges of code points, in ascending order and apart from
each other. The tables of Unicode properties in this directory are those of version 17.0. Surrogates
are no characters, so no table has them.
-/

namespace TensorGraph.Text

/-- Closed ranges of code points. -/
abbrev CodeRanges : Type := List (Nat × Nat)

namespace CodeRanges

/-- Is the code point in one of the ranges? -/
def holds (ranges : CodeRanges) (n : Nat) : Bool :=
  ranges.any fun r => decide (r.1 ≤ n) && decide (n ≤ r.2)

/-- Are the ranges proper, in ascending order and apart, all of them from `start` on? -/
def ascendFrom (start : Nat) : CodeRanges → Bool
  | [] => true
  | (low, high) :: rest => decide (start ≤ low) && decide (low ≤ high) && ascendFrom (high + 2) rest

/-- The number of code points in the ranges. -/
def size (ranges : CodeRanges) : Nat :=
  ranges.foldl (fun total r => total + (r.2 + 1 - r.1)) 0

/-- A code point is held iff it lies between the ends of a range. -/
theorem holds_iff {ranges : CodeRanges} {n : Nat} :
    ranges.holds n = true ↔ ∃ r ∈ ranges, r.1 ≤ n ∧ n ≤ r.2 := by
  simp [holds]

/-- Two tables hold together what each of them holds. -/
theorem holds_append (first second : CodeRanges) (n : Nat) :
    holds (first ++ second) n = (first.holds n || second.holds n) := by
  simp [holds, List.any_append]

/-- Nothing below the start of an ascending table is held. -/
theorem holds_eq_false_of_lt {start n : Nat} (h : n < start) :
    ∀ {ranges : CodeRanges}, ranges.ascendFrom start = true → ranges.holds n = false
  | [], _ => rfl
  | (low, high) :: rest, ascends => by
    simp only [ascendFrom, Bool.and_eq_true, decide_eq_true_eq] at ascends
    have below : n < high + 2 := by omega
    have later : holds rest n = false := holds_eq_false_of_lt below ascends.2
    have outside : ¬ low ≤ n := by omega
    simp only [holds, List.any_cons, outside, decide_false, Bool.false_and, Bool.false_or]
      at later ⊢
    exact later

end CodeRanges

end TensorGraph.Text
