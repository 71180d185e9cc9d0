import TensorCompiler.Bytes

namespace TensorCompiler

/-!
# Single-precision values

Clamp bounds, quantization scales and constant fills are IEEE binary32
numbers.  They are kept as bit patterns, because a payload of a NaN and the
sign of a zero are visible in what the compiler writes, although neither
matters to the order in which bounds are compared.

That order is total.  Every NaN is equal to every other and above all
numbers, and the two zeros are equal.  It is read off an integer key, so facts
about it are facts about integers.
-/

/-- A binary32 number, given by its 32 bits. -/
structure Binary32 where
  bits : UInt32
  deriving DecidableEq, Repr

namespace Binary32

/-- The bits below the sign. -/
def magnitude (x : Binary32) : Nat :=
  x.bits.toNat % 0x80000000

/-- Whether the sign bit is set, which also holds of the negative zero. -/
def isNegative (x : Binary32) : Bool :=
  decide (0x80000000 ≤ x.bits.toNat)

/-- The magnitude of the two infinities; above it lie the NaNs. -/
def infinityMagnitude : Nat :=
  0x7f800000

def isNaN (x : Binary32) : Bool :=
  decide (infinityMagnitude < x.magnitude)

def isInfinite (x : Binary32) : Bool :=
  decide (x.magnitude = infinityMagnitude)

/-- Assemble a value from a sign and the bits below it. -/
def ofMagnitude (negative : Bool) (magnitude : Nat) : Binary32 :=
  ⟨UInt32.ofNat (if negative then 0x80000000 + magnitude else magnitude)⟩

def zero : Binary32 :=
  ofMagnitude false 0

def infinity (negative : Bool) : Binary32 :=
  ofMagnitude negative infinityMagnitude

/-- The NaN with a clear sign and only the quiet bit in its payload. -/
def nan : Binary32 :=
  ofMagnitude false 0x7fc00000

/-! ## The total order -/

/-- The position of a value in the total order. -/
def orderKey (x : Binary32) : Int :=
  if x.isNaN then 0x80000000
  else if x.isNegative then -(x.magnitude : Int)
  else x.magnitude

instance : LE Binary32 :=
  ⟨fun first second => first.orderKey ≤ second.orderKey⟩

instance : LT Binary32 :=
  ⟨fun first second => first.orderKey < second.orderKey⟩

instance (first second : Binary32) : Decidable (first ≤ second) :=
  inferInstanceAs (Decidable (first.orderKey ≤ second.orderKey))

instance (first second : Binary32) : Decidable (first < second) :=
  inferInstanceAs (Decidable (first.orderKey < second.orderKey))

/-- Equality in the total order, which identifies the zeros and the NaNs. -/
def agrees (first second : Binary32) : Bool :=
  first.orderKey == second.orderKey

/-- The greater of two values.  Of two equal ones the second is taken, which
shows when they are zeros of different sign. -/
def greater (first second : Binary32) : Binary32 :=
  if second < first then first else second

/-- The lesser of two values.  Of two equal ones the first is taken. -/
def lesser (first second : Binary32) : Binary32 :=
  if second < first then second else first

/-! ## Bytes -/

/-- The four bytes of a value, least significant first. -/
def toBytes (x : Binary32) : List UInt8 :=
  Bytes.number 4 x.bits.toNat

/-- The value held by four bytes, least significant first. -/
def ofBytes (b0 b1 b2 b3 : UInt8) : Binary32 :=
  ⟨UInt32.ofNat (b0.toNat + b1.toNat * 0x100 + b2.toNat * 0x10000 + b3.toNat * 0x1000000)⟩

end Binary32

end TensorCompiler
