import Relink.Text

/-! # Ranges of characters

A property of characters that a standard gives by listing is a list of closed ranges of code points,
in increasing order. -/

namespace Relink

/-- Closed ranges of code points, in increasing order. -/
abbrev CodeRanges := List (Nat × Nat)

/-- Whether a code point lies in one of the ranges. -/
def CodeRanges.has : CodeRanges → Nat → Bool
  | [], _ => false
  | (low, high) :: ranges, n => n ≥ low && (n ≤ high || CodeRanges.has ranges n)

end Relink
