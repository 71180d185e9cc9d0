import TensorCompiler.DataType
import TensorCompiler.Word

namespace TensorCompiler

/-!
# Tensor types
-/

/-- The largest number of dimensions of a tensor. -/
def maxRank : Nat := 8

/-- An element type with dimensions, outermost first. -/
structure TensorType where
  dtype : DataType
  shape : List Nat
  deriving DecidableEq, Repr

namespace TensorType

/-- The type with the given dimensions, if there are not too many of them. -/
def ofDims? (dtype : DataType) (dims : List Nat) : Option TensorType :=
  if dims.length ≤ maxRank then some ⟨dtype, dims⟩ else none

/-- The type with the given dimensions, which must not be too many. -/
def ofDims (dtype : DataType) (dims : List Nat) : Checked TensorType :=
  match ofDims? dtype dims with
  | some type => .ok type
  | none => abort .rankTooLarge

/-- The type of a single element. -/
def scalar (dtype : DataType) : TensorType :=
  ⟨dtype, []⟩

def rank (type : TensorType) : Nat :=
  type.shape.length

/-- The number of elements. -/
def elements (type : TensorType) : Checked Nat :=
  Word.product type.shape

/-- The size of the elements without padding, in bytes. -/
def bytes (type : TensorType) : Checked Nat := do
  Word.mul (← type.elements) type.dtype.size

theorem refusesNothing_elements (type : TensorType) : type.elements.RefusesNothing :=
  Word.refusesNothing_product type.shape

theorem refusesNothing_bytes (type : TensorType) : type.bytes.RefusesNothing :=
  type.refusesNothing_elements.bind fun _ => Word.refusesNothing_mul _ _

end TensorType

end TensorCompiler
