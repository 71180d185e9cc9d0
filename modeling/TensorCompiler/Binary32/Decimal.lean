import TensorCompiler.Binary32.Rounding
import TensorCompiler.Text.Digits

namespace TensorCompiler
namespace Binary32

/-!
# Decimal text

A value is written with the fewest digits that read back as the same value,
always positionally.  Among the decimals that read back, those on the coarsest
power-of-ten grid have the fewest digits, and the one nearest to the value is
taken.

Reading accepts an optional sign before a decimal with an optional exponent,
or before the words for infinity and not-a-number, and rounds correctly.
-/

/-- The reals that round to a positive finite magnitude, as the doubled bounds
of an interval in units of `2^-149`, with the doubled value between them. -/
structure RoundingInterval where
  low : Nat
  value : Nat
  high : Nat
  /-- The end points round to an even significand, and away from an odd one. -/
  closed : Bool

def RoundingInterval.ofMagnitude (magnitude : Nat) : RoundingInterval where
  low := unitsOfMagnitude (magnitude - 1) + unitsOfMagnitude magnitude
  value := 2 * unitsOfMagnitude magnitude
  high := unitsOfMagnitude magnitude + unitsOfMagnitude (magnitude + 1)
  closed := magnitude % 2 == 0

/-- Whether `n / d`, with `d` in doubled units, lies in the interval. -/
def RoundingInterval.contains (interval : RoundingInterval) (numerator denominator : Nat) : Bool :=
  if interval.closed then
    decide (interval.low * denominator ≤ numerator ∧ numerator ≤ interval.high * denominator)
  else
    decide (interval.low * denominator < numerator ∧ numerator < interval.high * denominator)

/-- A decimal `digits * 10^exponent`. -/
structure Decimal where
  digits : Nat
  exponent : Int
  deriving DecidableEq, Repr

/-- The multiple of `10^exponent` in the interval that is nearest to the
value, the upper one at equal distance. -/
def RoundingInterval.onGrid (interval : RoundingInterval) (exponent : Int) : Option Decimal :=
  let step := 2 * unitsPerOne * Nat.pow 10 exponent.toNat
  let scale := Nat.pow 10 (-exponent).toNat
  let value := interval.value * scale
  let below := value / step
  let above := if value % step = 0 then below else below + 1
  let holds (digits : Nat) : Bool := interval.contains (digits * step) scale
  let nearerBelow := decide (value - below * step < above * step - value) || below == above
  if holds below && (nearerBelow || !holds above) then some ⟨below, exponent⟩
  else if holds above then some ⟨above, exponent⟩
  else none

/-- The coarsest grid that can hold a binary32 number, and how many finer ones
there are down to the spacing of the smallest. -/
def coarsestGrid : Int := 39

def gridCount : Nat := 86

/-- The shortest decimal that reads back as a positive finite magnitude. -/
def shortest (magnitude : Nat) : Decimal :=
  let interval := RoundingInterval.ofMagnitude magnitude
  ((List.range gridCount).findSome? fun (i : Nat) =>
    interval.onGrid (coarsestGrid - i)).getD ⟨0, 0⟩

/-- The decimal digits of a number, most significant first, in at least
`width` places. -/
private def paddedDigits (width n : Nat) : List Char :=
  let digits := Nat.toDigits 10 n
  List.replicate (width - digits.length) '0' ++ digits

/-- Positional notation without trailing zeros after the point. -/
def Decimal.positional (decimal : Decimal) : String :=
  if 0 ≤ decimal.exponent then toString (decimal.digits * Nat.pow 10 decimal.exponent.toNat)
  else
    let places := (-decimal.exponent).toNat
    let whole := decimal.digits / Nat.pow 10 places
    let fraction := ((paddedDigits places (decimal.digits % Nat.pow 10 places)).reverse.dropWhile
      (· == '0')).reverse
    if fraction.isEmpty then toString whole
    else toString whole ++ "." ++ String.ofList fraction

/-- The written form of a value. -/
def text (x : Binary32) : String :=
  if x.isNaN then "NaN"
  else
    let sign := if x.isNegative then "-" else ""
    if x.isInfinite then sign ++ "inf"
    else if x.magnitude = 0 then sign ++ "0"
    else sign ++ (shortest x.magnitude).positional

/-! ## Reading -/

/-- A decimal rounded to binary32.  Beyond the range of the type the result
is known from the number of digits, and no large power is formed. -/
def ofDecimal (negative : Bool) (decimal : Decimal) : Binary32 :=
  let length : Int := (Nat.toDigits 10 decimal.digits).length
  if decimal.digits = 0 ∨ length + decimal.exponent ≤ -46 then ofMagnitude negative 0
  else if 40 ≤ length + decimal.exponent then infinity negative
  else ofRatio negative (decimal.digits * Nat.pow 10 decimal.exponent.toNat)
    (Nat.pow 10 (-decimal.exponent).toNat)

/-- Remove a leading sign. -/
private def splitSign : List Char → Bool × List Char
  | '-' :: rest => (true, rest)
  | '+' :: rest => (false, rest)
  | rest => (false, rest)

/-- Read an exponent: nothing, or a mark, an optional sign and digits. -/
private def readExponent : List Char → Option Int
  | [] => some 0
  | mark :: rest =>
    let (negative, digits) := splitSign rest
    if (mark == 'e' || mark == 'E') && !digits.isEmpty && digits.all Char.isDigit then
      some (if negative then -(Text.digitsValue digits : Int) else Text.digitsValue digits)
    else none

/-- Read an unsigned decimal with at least one digit beside its point. -/
private def readDecimal (text : List Char) : Option Decimal :=
  let whole := text.takeWhile Char.isDigit
  let (fraction, rest) := match text.dropWhile Char.isDigit with
    | '.' :: rest => (rest.takeWhile Char.isDigit, rest.dropWhile Char.isDigit)
    | rest => ([], rest)
  if whole.isEmpty && fraction.isEmpty then none
  else (readExponent rest).map fun exponent =>
    ⟨Text.digitsValue (whole ++ fraction), exponent - fraction.length⟩

/-- Read a value. -/
def read? (text : List Char) : Option Binary32 :=
  let (negative, rest) := splitSign text
  let word := String.ofList (rest.map Char.toLower)
  if word = "inf" ∨ word = "infinity" then some (infinity negative)
  else if word = "nan" then some (ofMagnitude negative nan.magnitude)
  else (readDecimal rest).map (ofDecimal negative)

end Binary32
end TensorCompiler
