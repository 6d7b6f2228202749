/-!
# Ranges of code points

A property of characters is kept as the ranges of code points that have it, in ascending order.
-/

namespace Datalog.Text

/-- Whether a code point lies in one of the ranges, which ascend. -/
def inRanges (ranges : List (Nat × Nat)) (n : Nat) : Bool :=
  ((ranges.dropWhile fun r => r.2 < n).head?).any fun r => r.1 ≤ n

end Datalog.Text
