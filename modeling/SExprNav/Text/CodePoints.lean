/-!
# Sets of code points

A character class is a list of ranges of code points, both ends included. Membership is decided by
looking through the ranges; `CodePoints.contains_iff` says so as a proposition.
-/

namespace SExprNav

/-- A set of code points, given as ranges with both ends included. -/
abbrev CodePoints := List (Nat × Nat)

namespace CodePoints

/-- Whether a character lies in one of the ranges. -/
def contains (ranges : CodePoints) (c : Char) : Bool :=
  ranges.any fun r => decide (r.1 ≤ c.toNat) && decide (c.toNat ≤ r.2)

theorem contains_iff {ranges : CodePoints} {c : Char} :
    ranges.contains c = true ↔ ∃ r ∈ ranges, r.1 ≤ c.toNat ∧ c.toNat ≤ r.2 := by
  simp [contains]

end CodePoints

end SExprNav
