/-!
# Floating-point numbers

A floating-point number is kept as the 64 bits that represent it, so that
two numbers can be told apart even where they compare equal (`0.0` and
`-0.0`) and recognised even where they do not (a NaN). Everything the
language asks of a number – whether two are equal, the nearest number to an
integer, the integer part – is decided exactly on the bits.
-/

namespace Garnet

/-- **A floating-point number**, as its 64-bit representation. -/
structure Float64 where
  /-- One bit of sign, eleven of exponent, fifty-two of fraction. -/
  bits : UInt64
  deriving DecidableEq, Inhabited

namespace Float64

/-- Whether the sign bit is set. -/
def negative (x : Float64) : Bool :=
  x.bits >>> 63 == 1

/-- The exponent field. -/
def exponentField (x : Float64) : Nat :=
  ((x.bits >>> 52) &&& 0x7FF).toNat

/-- The fraction field. -/
def fractionField (x : Float64) : Nat :=
  (x.bits &&& 0xFFFFFFFFFFFFF).toNat

/-- Whether the number is neither infinite nor a NaN. -/
def isFinite (x : Float64) : Bool :=
  x.exponentField != 0x7FF

/-- Whether the bits represent no number. -/
def isNaN (x : Float64) : Bool :=
  x.exponentField == 0x7FF && x.fractionField != 0

/-- Whether the number is zero, of either sign. -/
def isZero (x : Float64) : Bool :=
  x.exponentField == 0 && x.fractionField == 0

/-- **Numeric equality**: the two zeros are equal, a NaN equals nothing,
and otherwise equal numbers have equal bits. -/
def equals (x y : Float64) : Bool :=
  !x.isNaN && !y.isNaN && (x.bits == y.bits || (x.isZero && y.isZero))

/-- **The magnitude of a finite number**: it is `significand · 2 ^ exponent`. -/
structure Magnitude where
  /-- The integer that is scaled. -/
  significand : Nat
  /-- The power of two it is scaled by. -/
  exponent : Int
  /-- Whether the next smaller number is only half as far away as the next
  larger one, which happens at the powers of two. -/
  narrowBelow : Bool

/-- The magnitude of a finite number. -/
def magnitude (x : Float64) : Magnitude :=
  if x.exponentField == 0 then ⟨x.fractionField, -1074, false⟩
  else
    ⟨Nat.pow 2 52 + x.fractionField, (x.exponentField : Int) - 1075,
      x.fractionField == 0 && x.exponentField > 1⟩

/-- The number with the opposite sign. -/
def neg (x : Float64) : Float64 :=
  ⟨x.bits ^^^ 0x8000000000000000⟩

/-- Infinity. -/
def infinity : Float64 :=
  ⟨0x7FF0000000000000⟩

/-! ### Rounding -/

/-- The quotient of two numbers, rounded to an integer; of two equally near
integers the even one. -/
def roundQuotient (num den : Nat) : Nat :=
  let q := num / den
  let twice := 2 * (num % den)
  if den < twice ∨ (den = twice ∧ q % 2 = 1) then q + 1 else q

/-- The exponent of the largest power of two that does not exceed a fraction of
positive numbers. -/
def floorLog2 (num den : Nat) : Int :=
  let k : Int := (num.log2 : Int) - den.log2
  if den * Nat.pow 2 k.toNat ≤ num * Nat.pow 2 (-k).toNat then k else k - 1

/-- **The number nearest to a fraction** of positive numbers; of two equally
near ones, the one with an even significand. The significand is the fraction
in units of the last of its 53 binary digits, or of the least number there
is. What rounding carries over goes into the exponent field, and a fraction
beyond the range becomes infinite. -/
def ofRatio (num den : Nat) : Float64 :=
  let e : Int := max (-1074) (floorLog2 num den - 52)
  let significand := roundQuotient (num * Nat.pow 2 (-e).toNat) (den * Nat.pow 2 e.toNat)
  let bits := (e + 1074).toNat * Nat.pow 2 52 + significand
  if infinity.bits.toNat ≤ bits then infinity else ⟨UInt64.ofNat bits⟩

/-- The number nearest to an integer. -/
def ofInt64 (n : Int64) : Float64 :=
  if n = 0 then ⟨0⟩
  else if n < 0 then (ofRatio n.toInt.natAbs 1).neg
  else ofRatio n.toInt.natAbs 1

/-- The number nearest to `digits · 10 ^ exponent`, where `digits` has
`width` digits and does not start with a zero. A decimal whose leading digit
is far beyond the range of the representation is infinite, or zero. -/
def ofScaled (digits width : Nat) (exponent : Int) : Float64 :=
  if digits = 0 then ⟨0⟩
  else if 400 < exponent + width then infinity
  else if exponent + width < -400 then ⟨0⟩
  else ofRatio (digits * Nat.pow 10 exponent.toNat) (Nat.pow 10 (-exponent).toNat)

/-! ### Truncating -/

/-- The integer part of a magnitude. -/
def Magnitude.floor (a : Magnitude) : Nat :=
  if 0 ≤ a.exponent then a.significand * Nat.pow 2 a.exponent.toNat
  else a.significand / Nat.pow 2 (-a.exponent).toNat

/-- **The integer part of a finite number**: what is left of it without its
fraction, or the nearest bound if it lies outside the 64-bit integers. -/
def truncate (x : Float64) : Int64 :=
  if x.negative then Int64.ofInt (max (-9223372036854775808) (-(x.magnitude.floor : Int)))
  else Int64.ofInt (min 9223372036854775807 (x.magnitude.floor : Int))

end Float64

end Garnet
