import Garnet.Number.Shortest

/-!
# Numbers as text

How the digits of a number are laid out. The language writes numbers in two
notations. A *literal* always shows that it is no integer, by a fraction or
by an exponent, and turns to an exponent for numbers that are very large or
very small. A *plain* number never has an exponent, and has a fraction only
where it needs one.

The other way round, `Float64.ofText?` reads a decimal.
-/

namespace Garnet.Float64

/-- **The decisions of a notation.** -/
structure Notation where
  /-- Whether a number whose leading digit stands for this power of ten is
  written without an exponent. -/
  positional : Int → Bool
  /-- What follows an integer that is written without an exponent. -/
  wholeEnd : List Char

/-- Literals are positional from `10 ^ -4` up to `10 ^ 16`, and an integer
ends in `.0`. -/
def literal : Notation where
  positional e := -4 ≤ e && e < 16
  wholeEnd := ['.', '0']

/-- Plain numbers are always positional, and an integer is written as an
integer. -/
def plain : Notation where
  positional _ := true
  wholeEnd := []

/-- Digits without the zeros at their end. -/
def significant (ds : List Char) : List Char :=
  (ds.reverse.dropWhile (· == '0')).reverse

/-- Digits with a point after the first `point` of them; a point outside
the digits is reached by zeros. -/
def positionalText (style : Notation) (ds : List Char) (point : Int) : List Char :=
  if point ≤ 0 then '0' :: '.' :: List.replicate (-point).toNat '0' ++ ds
  else if ds.length ≤ point.toNat then
    ds ++ List.replicate (point.toNat - ds.length) '0' ++ style.wholeEnd
  else ds.take point.toNat ++ '.' :: ds.drop point.toNat

/-- Digits with a point after the first of them and an exponent. -/
def exponentText (ds : List Char) (exponent : Int) : List Char :=
  let mantissa := match ds with
    | d :: e :: r => d :: '.' :: e :: r
    | _ => ds
  mantissa ++ 'e' :: (toString exponent).toList

/-- A decimal, laid out. -/
def Decimal.text (style : Notation) (d : Decimal) : List Char :=
  let written := Nat.toDigits 10 d.digits
  let point := (written.length : Int) + d.exponent
  let ds := significant written
  if style.positional (point - 1) then positionalText style ds point
  else exponentText ds (point - 1)

/-- **A number as text.** -/
def text (style : Notation) (x : Float64) : String :=
  if x.isNaN then "NaN"
  else
    let sign := if x.negative then ['-'] else []
    let body :=
      if !x.isFinite then ['i', 'n', 'f']
      else if x.isZero then '0' :: style.wholeEnd
      else x.magnitude.shortest.text style
    String.ofList (sign ++ body)

/-! ### Reading -/

/-- The number that digits denote, most significant first. -/
def digitsValue (ds : List Char) : Nat :=
  ds.foldl (fun n d => 10 * n + (d.toNat - '0'.toNat)) 0

/-- Reads an exponent: a sign that may be absent, and digits. -/
def readExponent? (s : List Char) : Option Int :=
  let (sign, ds) : Int × List Char := match s with
    | '-' :: r => (-1, r)
    | '+' :: r => (1, r)
    | _ => (1, s)
  if ds.isEmpty || !ds.all Char.isDigit then none else some (sign * digitsValue ds)

/-- Reads a number without a sign: digits, perhaps a point and digits,
perhaps an `e` and an exponent. -/
def readUnsigned? (s : List Char) : Option Float64 := do
  let whole := s.takeWhile Char.isDigit
  let (fraction, rest) := match s.dropWhile Char.isDigit with
    | '.' :: r => (r.takeWhile Char.isDigit, r.dropWhile Char.isDigit)
    | r => ([], r)
  let exponent ← match rest with
    | [] => some 0
    | e :: r => if e == 'e' || e == 'E' then readExponent? r else none
  if whole.isEmpty then none
  let digits := (whole ++ fraction).dropWhile (· == '0')
  return ofScaled (digitsValue digits) digits.length (exponent - fraction.length)

/-- **Reads a decimal**, or one of the names `NaN` and `inf`. -/
def ofText? (s : String) : Option Float64 :=
  match s with
  | "NaN" => some ⟨0x7FF8000000000000⟩
  | "inf" => some infinity
  | "-inf" => some infinity.neg
  | _ =>
    match s.toList with
    | '-' :: r => (readUnsigned? r).map neg
    | r => readUnsigned? r

end Garnet.Float64
