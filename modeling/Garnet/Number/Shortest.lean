import Garnet.Number.Float64

/-!
# The shortest decimal of a number

A number is written with the fewest digits that still read back to it.
The reals that are rounded to a number form an interval that reaches
halfway to its two neighbours; the search goes through the grids of one,
two, … seventeen significant digits and stops at the first one with a point
in that interval. Only the two grid points next to the number can lie
there. If both do, the nearer one is taken, and of two equally near ones the
larger.
-/

namespace Garnet.Float64

/-- **A decimal**: it is `digits · 10 ^ exponent`. -/
structure Decimal where
  /-- The integer that is scaled. -/
  digits : Nat
  /-- The power of ten it is scaled by. -/
  exponent : Int

/-- Compares `a · 10 ^ i` with `b · 2 ^ j`. -/
def compareScaled (a : Nat) (i : Int) (b : Nat) (j : Int) : Ordering :=
  compare (a * Nat.pow 10 i.toNat * Nat.pow 2 (-j).toNat)
    (b * Nat.pow 2 j.toNat * Nat.pow 10 (-i).toNat)

namespace Magnitude

/-- Whether a decimal is rounded to this number. The ends of the interval
are halfway to the neighbours, and belong to it when the significand is
even. -/
def readsBack (a : Magnitude) (d : Decimal) : Bool :=
  let low := if a.narrowBelow then 4 * a.significand - 1 else 4 * a.significand - 2
  let high := 4 * a.significand + 2
  let closed := a.significand % 2 == 0
  let atLow := compareScaled d.digits d.exponent low (a.exponent - 2)
  let atHigh := compareScaled d.digits d.exponent high (a.exponent - 2)
  (atLow == .gt || (closed && atLow == .eq)) && (atHigh == .lt || (closed && atHigh == .eq))

/-- The least power of ten above a non-zero number: the estimate from its
binary length is at most two steps too low. -/
def scale (a : Magnitude) : Int :=
  let estimate := ((a.significand.log2 : Int) + a.exponent) * 30103 / 100000
  ((List.range 4).map fun i : Nat => estimate + (i : Int)).find?
    (fun k => compareScaled 1 k a.significand a.exponent == .gt) |>.getD (estimate + 4)

/-- The grid point at or below a number, on the grid of `10 ^ e`. -/
def floorOn (a : Magnitude) (e : Int) : Nat :=
  a.significand * Nat.pow 2 a.exponent.toNat * Nat.pow 10 (-e).toNat /
    (Nat.pow 10 e.toNat * Nat.pow 2 (-a.exponent).toNat)

/-- The decimal on the grid of `10 ^ e` that reads back, if there is one. -/
def onGrid? (a : Magnitude) (e : Int) : Option Decimal :=
  let below : Decimal := ⟨a.floorOn e, e⟩
  let above : Decimal := ⟨a.floorOn e + 1, e⟩
  match a.readsBack below, a.readsBack above with
  | false, false => none
  | true, false => some below
  | false, true => some above
  | true, true =>
    if compareScaled (2 * below.digits + 1) e (2 * a.significand) a.exponent == .gt
    then some below else some above

/-- The decimal value itself, written out. -/
def exactDecimal (a : Magnitude) : Decimal :=
  if 0 ≤ a.exponent then ⟨a.significand * Nat.pow 2 a.exponent.toNat, 0⟩
  else ⟨a.significand * Nat.pow 5 (-a.exponent).toNat, a.exponent⟩

/-- **The shortest decimal** of a non-zero number. -/
def shortest (a : Magnitude) : Decimal :=
  ((List.range 17).findSome? fun n : Nat => a.onGrid? (a.scale - 1 - (n : Int))).getD a.exactDecimal

end Magnitude

end Garnet.Float64
