/-!
# Character classes as ranges of code points

A Unicode property is given as an ascending list of inclusive ranges of code points, and membership
is one pass over that list. The tables themselves stand in modules named for their property.
-/

namespace ScriptFront.Text

/-- The code point of `c` lies in one of the inclusive ranges. -/
def inRanges (ranges : List (Nat × Nat)) (c : Char) : Bool :=
  ranges.any fun r => decide (r.1 ≤ c.toNat) && decide (c.toNat ≤ r.2)

theorem inRanges_iff {ranges : List (Nat × Nat)} {c : Char} :
    inRanges ranges c = true ↔ ∃ r ∈ ranges, r.1 ≤ c.toNat ∧ c.toNat ≤ r.2 := by
  simp [inRanges]

end ScriptFront.Text
