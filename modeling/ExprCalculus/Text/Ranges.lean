/-!
# Ranges of code points

A property of characters is held as a list of ranges, first and last code point included.
`inRanges_iff` says what the test means.
-/

namespace ExprCalculus.Text

/-- Ranges of code points, both ends included. -/
abbrev Ranges := List (Nat × Nat)

def inRanges (ranges : Ranges) (c : Char) : Bool :=
  ranges.any fun r => r.1 ≤ c.toNat && c.toNat ≤ r.2

theorem inRanges_iff {ranges : Ranges} {c : Char} :
    inRanges ranges c = true ↔ ∃ r ∈ ranges, r.1 ≤ c.toNat ∧ c.toNat ≤ r.2 := by
  simp [inRanges]

end ExprCalculus.Text
