namespace TensorCompiler

/-!
# Element types
-/

/-- The type of a tensor's elements. -/
inductive DataType where
  | f32
  | f16
  | i32
  | i8
  | u8
  deriving DecidableEq, Repr

namespace DataType

/-- Every element type, in declaration order. -/
def all : List DataType :=
  [f32, f16, i32, i8, u8]

def name : DataType → String
  | f32 => "f32"
  | f16 => "f16"
  | i32 => "i32"
  | i8 => "i8"
  | u8 => "u8"

/-- The element type with a given name. -/
def ofName? (text : String) : Option DataType :=
  all.find? (·.name == text)

/-- The size of one element, in bytes. -/
def size : DataType → Nat
  | f32 | i32 => 4
  | f16 => 2
  | i8 | u8 => 1

/-- The eight-bit integer types stand for quantized values. -/
def isQuantized : DataType → Bool
  | i8 | u8 => true
  | f32 | f16 | i32 => false

end DataType

end TensorCompiler
