/-!
# Tables of code points

A Unicode property is held as a list of closed ranges of code points. The lists are ascending, but
membership does not depend on it.
-/

set_option autoImplicit false

namespace Outline.Text

/-- Whether a code point lies in one of the closed ranges of a table. -/
def inRanges (ranges : List (Nat × Nat)) (point : Nat) : Bool :=
  ranges.any fun range => range.1 ≤ point && point ≤ range.2

/-- A point is in some ranges if it is between the ends of one of them. -/
theorem inRanges_iff (ranges : List (Nat × Nat)) (point : Nat) :
    inRanges ranges point = true ↔ ∃ range ∈ ranges, range.1 ≤ point ∧ point ≤ range.2 := by
  simp [inRanges]

end Outline.Text
