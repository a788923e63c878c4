/-!
# Ranges of characters

A property of characters is given by the closed ranges of code points that have it.

Results:
* `inRanges_iff`: a number is in the ranges exactly when one of them holds it.
-/

namespace NormalAlgorithm

/-- Closed ranges of code points. -/
abbrev Ranges := List (Nat × Nat)

/-- Whether one of the ranges holds a number. -/
def inRanges (rs : Ranges) (n : Nat) : Bool := rs.any fun r => r.1 ≤ n && n ≤ r.2

theorem inRanges_iff {rs : Ranges} {n : Nat} :
    inRanges rs n = true ↔ ∃ r ∈ rs, r.1 ≤ n ∧ n ≤ r.2 := by
  simp [inRanges]

/-- The number of code points in ranges that do not overlap. -/
def countRanges (rs : Ranges) : Nat := rs.foldr (fun r n => r.2 + 1 - r.1 + n) 0

end NormalAlgorithm
