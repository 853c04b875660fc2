/-!
# Ranges of characters

A set of characters given by the numbers where its runs begin and end.
-/

namespace Blockwork

/-- Whether a character lies in one of the ranges. -/
def inRanges (ranges : List (Nat × Nat)) (c : Char) : Bool :=
  ranges.any fun r => r.1 ≤ c.toNat && c.toNat ≤ r.2

end Blockwork
