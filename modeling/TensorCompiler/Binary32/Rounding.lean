import TensorCompiler.Binary32.Basic

namespace TensorCompiler
namespace Binary32

/-!
# Exact values and rounding

Every finite binary32 number is a whole multiple of the least positive one,
`2^-149`.  Counting in that unit turns a value into a natural number and its
sign, so a sum, a quotient or a truncation is first found exactly and then
rounded once, to the nearest value with ties to the even significand.
-/

/-- How many units of `2^-149` a magnitude stands for.  The formula is also
used one step beyond the largest finite magnitude, where it gives `2^128`. -/
def unitsOfMagnitude (magnitude : Nat) : Nat :=
  let exponent := magnitude / 0x800000
  let fraction := magnitude % 0x800000
  if exponent = 0 then fraction else (0x800000 + fraction) * Nat.pow 2 (exponent - 1)

/-- The absolute value of a finite number, in units of `2^-149`. -/
def units (x : Binary32) : Nat :=
  unitsOfMagnitude x.magnitude

/-- The number of units in one. -/
def unitsPerOne : Nat :=
  Nat.pow 2 149

/-- A finite number with its sign, in units of `2^-149`. -/
def signedUnits (x : Binary32) : Int :=
  if x.isNegative then -(x.units : Int) else x.units

/-- A quotient of naturals, to the nearest integer and ties to the even one. -/
def roundHalfEven (numerator denominator : Nat) : Nat :=
  let quotient := numerator / denominator
  let twice := 2 * (numerator % denominator)
  if denominator < twice ∨ (twice = denominator ∧ quotient % 2 = 1) then quotient + 1
  else quotient

/-- The value nearest to a positive ratio, counted in significands scaled by
`2^exponent` with `exponent` at least `-149`. -/
private def scaledSignificand (numerator denominator : Nat) (exponent : Int) : Nat × Nat :=
  if exponent ≤ 0 then (numerator * Nat.pow 2 (-exponent).toNat, denominator)
  else (numerator, denominator * Nat.pow 2 exponent.toNat)

/-- The binary32 number nearest to `numerator / denominator`, with the given
sign.  A carry out of the significand moves into the exponent by itself, since
the two fields are adjacent; what reaches the top exponent is infinite. -/
def ofRatio (negative : Bool) (numerator denominator : Nat) : Binary32 :=
  if numerator = 0 then ofMagnitude negative 0
  else
    let estimate : Int := max (-149) ((Nat.log2 numerator : Int) - Nat.log2 denominator - 24)
    let (top, bottom) := scaledSignificand numerator denominator estimate
    let exponent := if 0x1000000 * bottom ≤ top then estimate + 1 else estimate
    let (top, bottom) := scaledSignificand numerator denominator exponent
    let magnitude := (exponent + 149).toNat * 0x800000 + roundHalfEven top bottom
    ofMagnitude negative (min magnitude infinityMagnitude)

/-- The binary32 number nearest to an integer. -/
def ofInt (n : Int) : Binary32 :=
  ofRatio (decide (n < 0)) n.natAbs 1

/-- Division, rounded once. -/
def divide (dividend divisor : Binary32) : Binary32 :=
  let negative := dividend.isNegative != divisor.isNegative
  if dividend.isNaN || divisor.isNaN then nan
  else if dividend.isInfinite then
    if divisor.isInfinite then nan else infinity negative
  else if divisor.isInfinite then ofMagnitude negative 0
  else if divisor.units = 0 then
    if dividend.units = 0 then nan else infinity negative
  else ofRatio negative dividend.units divisor.units

/-- Addition, rounded once.  A sum of zero is the positive zero, which is
enough where only its order and its integer part are used. -/
def add (first second : Binary32) : Binary32 :=
  if first.isNaN || second.isNaN then nan
  else if first.isInfinite then
    if second.isInfinite && first.isNegative != second.isNegative then nan else first
  else if second.isInfinite then second
  else
    let sum := first.signedUnits + second.signedUnits
    ofRatio (decide (sum < 0)) sum.natAbs unitsPerOne

/-- The nearest integral value, with halves going away from zero. -/
def roundAwayFromZero (x : Binary32) : Binary32 :=
  if x.isNaN || x.isInfinite then x
  else ofRatio x.isNegative ((2 * x.units + unitsPerOne) / (2 * unitsPerOne)) 1

/-- The integer part, brought into `[low, high]`.  A NaN counts as zero. -/
def truncate (low high : Int) (x : Binary32) : Int :=
  if x.isNaN then 0
  else if x.isInfinite then if x.isNegative then low else high
  else
    let whole : Int := (x.units / unitsPerOne : Nat)
    max low (min high (if x.isNegative then -whole else whole))

end Binary32
end TensorCompiler
