/-!
# Ranges of characters

A class of characters as a table of ranges of code points, both ends included.  `inRanges` decides
it, and `inRanges_iff` says that one range is enough.
-/

namespace Lineage.Text

/-- Whether a character lies in one of the ranges. -/
def inRanges (ranges : Array (Nat × Nat)) (c : Char) : Bool :=
  ranges.any fun range => range.1 ≤ c.toNat && c.toNat ≤ range.2

theorem inRanges_iff {ranges : Array (Nat × Nat)} {c : Char} :
    inRanges ranges c = true ↔
      ∃ range ∈ ranges, range.1 ≤ c.toNat ∧ c.toNat ≤ range.2 := by
  rw [inRanges, Array.any_eq_true']
  simp only [Bool.and_eq_true, decide_eq_true_eq]

end Lineage.Text
