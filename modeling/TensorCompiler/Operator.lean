import TensorCompiler.Binary32.Decimal
import TensorCompiler.DataType

namespace TensorCompiler

/-!
# Operators

An operator says what a node computes.  Its operands are not part of it: they
are the node's inputs.  The parameters of an operator are compared in the
total order of `Binary32`, so two clamps to differently signed zeros count as
the same operator.
-/

/-- An elementwise function of one operand. -/
inductive UnaryFunction where
  | abs
  | neg
  | exp
  | sqrt
  | relu
  deriving DecidableEq, Repr

namespace UnaryFunction

def all : List UnaryFunction :=
  [abs, neg, exp, sqrt, relu]

def name : UnaryFunction → String
  | abs => "abs"
  | neg => "neg"
  | exp => "exp"
  | sqrt => "sqrt"
  | relu => "relu"

def ofName? (text : String) : Option UnaryFunction :=
  all.find? (·.name == text)

end UnaryFunction

/-- An elementwise function of two operands. -/
inductive BinaryFunction where
  | add
  | sub
  | mul
  | div
  | min
  | max
  deriving DecidableEq, Repr

namespace BinaryFunction

def all : List BinaryFunction :=
  [add, sub, mul, div, min, max]

def name : BinaryFunction → String
  | add => "add"
  | sub => "sub"
  | mul => "mul"
  | div => "div"
  | min => "min"
  | max => "max"

def ofName? (text : String) : Option BinaryFunction :=
  all.find? (·.name == text)

end BinaryFunction

/-! ## Parameters -/

/-- The range that a clamp brings values into. -/
structure ClampRange where
  min : Binary32
  max : Binary32
  deriving DecidableEq, Repr

namespace ClampRange

/-- The range that leaves every number unchanged. -/
def unbounded : ClampRange :=
  ⟨Binary32.infinity true, Binary32.infinity false⟩

/-- The range of a rectifier. -/
def nonnegative : ClampRange :=
  ⟨Binary32.zero, Binary32.infinity false⟩

/-- The one range that has the effect of `first` followed by `second`.  Where
the two are disjoint it is the bound of `second` nearer to `first`. -/
def intersect (first second : ClampRange) : ClampRange where
  min := (first.min.greater second.min).lesser second.max
  max := (first.max.lesser second.max).greater second.min

/-- Equality of the bounds in the total order. -/
def agrees (first second : ClampRange) : Bool :=
  first.min.agrees second.min && first.max.agrees second.max

def isUnbounded (range : ClampRange) : Bool :=
  range.agrees unbounded

end ClampRange

/-- Affine quantization: a stored `q` stands for `(q - zeroPoint) * scale`. -/
structure Quantization where
  scale : Binary32
  zeroPoint : Int
  deriving DecidableEq, Repr

namespace Quantization

def agrees (first second : Quantization) : Bool :=
  first.scale.agrees second.scale && first.zeroPoint == second.zeroPoint

/-- The byte that stands for a number: the quotient by the scale is rounded
with halves away from zero, shifted by the zero point and saturated. -/
def quantizeByte (q : Quantization) (x : Binary32) : UInt8 :=
  let shifted := (x.divide q.scale).roundAwayFromZero.add (Binary32.ofInt q.zeroPoint)
  UInt8.ofNat (shifted.truncate 0 255).toNat

/-- Quantize a block of binary32 values, four bytes each.  Bytes that do not
make up a whole value are dropped. -/
def quantizeBytes (q : Quantization) : List UInt8 → List UInt8
  | b0 :: b1 :: b2 :: b3 :: rest =>
    q.quantizeByte (Binary32.ofBytes b0 b1 b2 b3) :: q.quantizeBytes rest
  | _ => []

end Quantization

/-- Geometry of a two-dimensional convolution, height before width, and the
clamp fused into it. -/
structure Convolution where
  strideHeight : Nat := 1
  strideWidth : Nat := 1
  paddingHeight : Nat := 0
  paddingWidth : Nat := 0
  clamp : ClampRange := ClampRange.unbounded
  deriving DecidableEq, Repr

namespace Convolution

def agrees (first second : Convolution) : Bool :=
  first.strideHeight == second.strideHeight && first.strideWidth == second.strideWidth &&
    first.paddingHeight == second.paddingHeight && first.paddingWidth == second.paddingWidth &&
    first.clamp.agrees second.clamp

end Convolution

/-! ## Operators and their classes -/

/-- The class of an operator, without its parameters. -/
inductive Opcode where
  | input
  | output
  | constant
  | transpose
  | reshape
  | unary
  | binary
  | clamp
  | conv2d
  | matMul
  | quantize
  | dequantize
  | accelUpload
  | accelDownload
  | accelConv2d
  deriving DecidableEq, Repr

namespace Opcode

/-- Every opcode, in declaration order. -/
def all : List Opcode :=
  [input, output, constant, transpose, reshape, unary, binary, clamp, conv2d, matMul, quantize,
    dequantize, accelUpload, accelDownload, accelConv2d]

def name : Opcode → String
  | input => "input"
  | output => "output"
  | constant => "constant"
  | transpose => "transpose"
  | reshape => "reshape"
  | unary => "unary"
  | binary => "binary"
  | clamp => "clamp"
  | conv2d => "conv2d"
  | matMul => "mat_mul"
  | quantize => "quantize"
  | dequantize => "dequantize"
  | accelUpload => "accel_upload"
  | accelDownload => "accel_download"
  | accelConv2d => "accel_conv2d"

def ofName? (text : String) : Option Opcode :=
  all.find? (·.name == text)

end Opcode

/-- What a node computes. -/
inductive Operator where
  /-- A value provided from outside. -/
  | input
  /-- A declared result of the network; it produces nothing itself. -/
  | output
  | constant (data : List UInt8)
  /-- Reorder axes: axis `i` of the result is axis `axes[i]` of the operand. -/
  | transpose (axes : List Nat)
  /-- Read the same elements with other dimensions. -/
  | reshape (shape : List Nat)
  | unary (function : UnaryFunction)
  | binary (function : BinaryFunction)
  | clamp (range : ClampRange)
  /-- Convolve a batch of images with weights and add a bias per channel. -/
  | conv2d (convolution : Convolution)
  /-- Multiply matrices, then clamp. -/
  | matMul (range : ClampRange)
  | quantize (quantization : Quantization) (type : DataType)
  | dequantize (quantization : Quantization)
  /-- Copy a value into accelerator memory. -/
  | accelUpload
  /-- Copy a value out of accelerator memory. -/
  | accelDownload
  /-- A convolution of quantized values on the accelerator. -/
  | accelConv2d (convolution : Convolution)
  deriving DecidableEq, Repr

namespace Operator

def opcode : Operator → Opcode
  | input => .input
  | output => .output
  | constant _ => .constant
  | transpose _ => .transpose
  | reshape _ => .reshape
  | unary _ => .unary
  | binary _ => .binary
  | clamp _ => .clamp
  | conv2d _ => .conv2d
  | matMul _ => .matMul
  | quantize .. => .quantize
  | dequantize _ => .dequantize
  | accelUpload => .accelUpload
  | accelDownload => .accelDownload
  | accelConv2d _ => .accelConv2d

/-- The number of operands. -/
def inputCount (op : Operator) : Nat :=
  match op.opcode with
  | .input | .constant => 0
  | .binary | .matMul => 2
  | .conv2d | .accelConv2d => 3
  | _ => 1

/-- The number of results. -/
def outputCount (op : Operator) : Nat :=
  match op.opcode with
  | .output => 0
  | _ => 1

/-- Equality with binary32 parameters compared in their total order. -/
def agrees : Operator → Operator → Bool
  | clamp first, clamp second => first.agrees second
  | conv2d first, conv2d second => first.agrees second
  | matMul first, matMul second => first.agrees second
  | quantize first firstType, quantize second secondType =>
    first.agrees second && firstType == secondType
  | dequantize first, dequantize second => first.agrees second
  | accelConv2d first, accelConv2d second => first.agrees second
  | first, second => first == second

/-- A list of numbers in brackets. -/
def listText (numbers : List Nat) : String :=
  "[" ++ ", ".intercalate (numbers.map toString) ++ "]"

/-- A short description for drawings. -/
def label : Operator → String
  | transpose axes => "transpose " ++ listText axes
  | reshape shape => "reshape " ++ listText shape
  | unary function => function.name
  | binary function => function.name
  | clamp range => "clamp [" ++ range.min.text ++ ", " ++ range.max.text ++ "]"
  | op => op.opcode.name

end Operator

end TensorCompiler
