/-!
# Classes of characters

A class of characters is a list of closed ranges of code points, in ascending order and apart from
each other.  The tables of such ranges in this library hold properties of Unicode 17.
-/

namespace FleetUpdate.Text

/-- The code point of the character lies in one of the ranges. -/
def inRanges (rs : List (Nat × Nat)) (c : Char) : Bool :=
  rs.any fun r => decide (r.1 ≤ c.toNat) && decide (c.toNat ≤ r.2)

/-- No range is empty, and each one ends before the next one begins, with a gap between them. -/
def ascending : List (Nat × Nat) → Bool
  | [] => true
  | [r] => decide (r.1 ≤ r.2)
  | r :: s :: rs => decide (r.1 ≤ r.2) && decide (r.2 + 1 < s.1) && ascending (s :: rs)

theorem inRanges_iff {rs : List (Nat × Nat)} {c : Char} :
    inRanges rs c = true ↔ ∃ r ∈ rs, r.1 ≤ c.toNat ∧ c.toNat ≤ r.2 := by
  simp [inRanges]

end FleetUpdate.Text
