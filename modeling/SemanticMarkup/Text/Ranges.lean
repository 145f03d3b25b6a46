/-!
# Character classes given by ranges of code points

A class of characters is a list of closed ranges of code points. Membership is
decided by one pass over the list.
-/

namespace SemanticMarkup.Text

/-- A closed range of code points, first and last. -/
abbrev CodeRange := Nat × Nat

/-- Whether a code point lies in one of the ranges. -/
def inRanges (ranges : List CodeRange) (code : Nat) : Bool :=
  ranges.any fun r => r.1 ≤ code && code ≤ r.2

/-- Membership is membership in some listed range. -/
theorem inRanges_iff (ranges : List CodeRange) (code : Nat) :
    inRanges ranges code = true ↔ ∃ r ∈ ranges, r.1 ≤ code ∧ code ≤ r.2 := by
  simp [inRanges]

end SemanticMarkup.Text
