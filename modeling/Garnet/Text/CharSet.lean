/-!
# Sets of characters

A property of characters, given by the ranges of code points that have it.
-/

namespace Garnet.Text

/-- **A set of characters**, as closed ranges of code points in ascending
order. -/
structure CharSet where
  /-- The first and the last code point of each range. -/
  ranges : List (Nat × Nat)

/-- Whether a character lies in one of the ranges. -/
def CharSet.contains (s : CharSet) (c : Char) : Bool :=
  s.ranges.any fun r => r.1 ≤ c.toNat && c.toNat ≤ r.2

end Garnet.Text
