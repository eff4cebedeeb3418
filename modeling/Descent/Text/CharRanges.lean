/-!
# Sets of characters as ranges

A property of characters that a standard lays down by table is written here
as the list of the ranges of code points that have it.
-/

namespace Descent

/-- A set of characters: the first and last code points of its ranges, in
increasing order. -/
abbrev CharRanges := List (Nat × Nat)

namespace CharRanges

/-- Whether a character lies in one of the ranges. -/
def has (ranges : CharRanges) (c : Char) : Bool :=
  ranges.any fun range => range.1 ≤ c.toNat && c.toNat ≤ range.2

theorem has_iff {ranges : CharRanges} {c : Char} :
    ranges.has c = true ↔ ∃ r ∈ ranges, r.1 ≤ c.toNat ∧ c.toNat ≤ r.2 := by
  simp [has]

end CharRanges

end Descent
