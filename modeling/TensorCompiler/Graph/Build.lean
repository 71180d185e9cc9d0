import TensorCompiler.Graph.Edit

namespace TensorCompiler
namespace Graph

/-!
# Typed construction

Each constructor checks its operands, infers the type of its result, adds one
node and connects the operands in order.  All checks come before the node is
added.
-/

/-- Connect the inputs of a node, from the given one on, to some outlets. -/
def connectFrom (id : Nat) : (index : Nat) → List Outlet → Edit Unit
  | _, [] => return ()
  | index, operand :: rest => do
    connect ⟨id, index⟩ operand
    connectFrom id (index + 1) rest

/-- Add a node with one result and connect its operands.  The node is named
after its operator and its position. -/
def applyOperator (op : Operator) (operands : List Outlet) (type : TensorType) : Edit Outlet := do
  let id ← addNode op (op.opcode.name ++ "_" ++ toString (← get).slots.size) [type]
  connectFrom id 0 operands
  return ⟨id, 0⟩

/-- The type at an outlet, if its elements are of an accepted kind. -/
def typeWith (g : Graph) (outlet : Outlet) (accepts : DataType → Bool) (context : String) :
    Checked TensorType := do
  let type ← g.outputType outlet
  if accepts type.dtype then return type else refuse (.typeMismatch context)

/-! ## Ends and constants -/

/-- Declare an input of the network. -/
def input (name : String) (type : TensorType) : Edit Outlet := do
  return ⟨← addNode .input name [type], 0⟩

/-- Declare an output of the network. -/
def output (name : String) (value : Outlet) : Edit Nat := do
  let _ ← Edit.ask (·.outputType value)
  let id ← addNode .output name []
  connect ⟨id, 0⟩ value
  return id

/-- A constant given by the bytes of its elements. -/
def constant (type : TensorType) (data : List UInt8) : Edit Outlet := do
  if data.length = (← type.bytes) then applyOperator (.constant data) [] type
  else refuse (.typeMismatch "constant")

/-- A constant of binary32 elements. -/
def constantFloats (dims : List Nat) (values : List Binary32) : Edit Outlet := do
  match TensorType.ofDims? .f32 dims with
  | some type => constant type (values.flatMap Binary32.toBytes)
  | none => refuse (.badRank dims.length)

/-! ## Moving elements -/

/-- Whether a list holds each axis below `rank` exactly once. -/
def isPermutation (axes : List Nat) (rank : Nat) : Bool :=
  axes.length == rank && axes.all (fun axis => decide (axis < rank)) && decide axes.Nodup

/-- The dimensions of a tensor after reordering its axes. -/
def permuteDims (axes dims : List Nat) : List Nat :=
  axes.map fun axis => dims.getD axis 0

def transpose (value : Outlet) (axes : List Nat) : Edit Outlet := do
  let type ← Edit.ask (·.outputType value)
  if isPermutation axes type.rank then
    applyOperator (.transpose axes) [value] ⟨type.dtype, permuteDims axes type.shape⟩
  else refuse (.badPermutation axes)

def reshape (value : Outlet) (dims : List Nat) : Edit Outlet := do
  let type ← Edit.ask (·.outputType value)
  match TensorType.ofDims? type.dtype dims with
  | none => refuse (.badRank dims.length)
  | some reshaped =>
    let requested ← reshaped.elements
    let elements ← type.elements
    if requested = elements then applyOperator (.reshape dims) [value] reshaped
    else refuse (.badReshape elements requested)

/-! ## Elementwise operators -/

def unary (function : UnaryFunction) (value : Outlet) : Edit Outlet := do
  applyOperator (.unary function) [value] (← Edit.ask (·.outputType value))

/-- The type of an elementwise function of two operands.  They have the same
shape, or one of them is a scalar. -/
def binaryType (function : BinaryFunction) (first second : TensorType) : Checked TensorType :=
  if first.dtype ≠ second.dtype then refuse (.typeMismatch function.name)
  else if first.shape = second.shape ∨ second.rank = 0 then return first
  else if first.rank = 0 then return second
  else refuse (.shapeMismatch first.shape second.shape)

def binary (function : BinaryFunction) (first second : Outlet) : Edit Outlet := do
  let firstType ← Edit.ask (·.outputType first)
  let secondType ← Edit.ask (·.outputType second)
  applyOperator (.binary function) [first, second] (← binaryType function firstType secondType)

def clamp (value : Outlet) (range : ClampRange) : Edit Outlet := do
  applyOperator (.clamp range) [value] (← Edit.ask (·.outputType value))

/-! ## Convolutions and matrix products -/

/-- An extent with padding on both sides. -/
def paddedExtent (extent padding : Nat) : Checked Nat := do
  Word.add extent (← Word.mul 2 padding)

/-- The type of a convolution of images `[n, c, h, w]` with weights
`[o, c, kh, kw]` and a bias `[o]`. -/
def convolvedType (convolution : Convolution) (input weights bias : TensorType) :
    Checked TensorType :=
  match input.shape, weights.shape with
  | [batch, channels, height, width], [features, depth, kernelHeight, kernelWidth] => do
    let mismatch : Error := .shapeMismatch input.shape weights.shape
    if channels ≠ depth ∨ bias.shape ≠ [features] then refuse mismatch
    if convolution.strideHeight = 0 ∨ convolution.strideWidth = 0 then refuse mismatch
    let paddedHeight ← paddedExtent height convolution.paddingHeight
    if paddedHeight < kernelHeight then refuse mismatch
    let paddedWidth ← paddedExtent width convolution.paddingWidth
    if paddedWidth < kernelWidth then refuse mismatch
    let rows ← Word.add ((paddedHeight - kernelHeight) / convolution.strideHeight) 1
    let columns ← Word.add ((paddedWidth - kernelWidth) / convolution.strideWidth) 1
    return ⟨input.dtype, [batch, features, rows, columns]⟩
  | [_, _, _, _], _ => refuse (.badRank weights.rank)
  | _, _ => refuse (.badRank input.rank)

/-- The type of a convolution of three outlets. -/
def convolvedTypeAt (g : Graph) (convolution : Convolution) (input weights bias : Outlet) :
    Checked TensorType := do
  let inputType ← g.outputType input
  let weightsType ← g.outputType weights
  let biasType ← g.outputType bias
  convolvedType convolution inputType weightsType biasType

def conv2d (input weights bias : Outlet) (convolution : Convolution) : Edit Outlet := do
  let _ ← Edit.ask (·.typeWith input (· = .f32) "conv2d")
  let type ← Edit.ask (·.convolvedTypeAt convolution input weights bias)
  applyOperator (.conv2d convolution) [input, weights, bias] type

/-- The type of a product of matrices `[m, k]` and `[k, n]`. -/
def productType (first second : TensorType) : Checked TensorType :=
  match first.shape, second.shape with
  | [rows, inner], [depth, columns] =>
    if inner = depth then return ⟨first.dtype, [rows, columns]⟩
    else refuse (.shapeMismatch first.shape second.shape)
  | _, _ => refuse (.shapeMismatch first.shape second.shape)

def matMul (first second : Outlet) (range : ClampRange) : Edit Outlet := do
  let firstType ← Edit.ask (·.outputType first)
  let secondType ← Edit.ask (·.outputType second)
  applyOperator (.matMul range) [first, second] (← productType firstType secondType)

/-! ## Quantized values and the accelerator -/

def quantize (value : Outlet) (quantization : Quantization) (dtype : DataType) : Edit Outlet := do
  let type ← Edit.ask (·.typeWith value (· = .f32) "quantize")
  if dtype.isQuantized then
    applyOperator (.quantize quantization dtype) [value] ⟨dtype, type.shape⟩
  else refuse (.typeMismatch "quantize")

def dequantize (value : Outlet) (quantization : Quantization) : Edit Outlet := do
  let type ← Edit.ask (·.typeWith value DataType.isQuantized "dequantize")
  applyOperator (.dequantize quantization) [value] ⟨.f32, type.shape⟩

def accelUpload (value : Outlet) : Edit Outlet := do
  applyOperator .accelUpload [value]
    (← Edit.ask (·.typeWith value DataType.isQuantized "accel_upload"))

def accelDownload (value : Outlet) : Edit Outlet := do
  applyOperator .accelDownload [value] (← Edit.ask (·.outputType value))

/-- The accelerator convolves with square kernels of one or three rows. -/
def isAcceleratedKernel (weights : TensorType) : Bool :=
  match weights.shape with
  | [_, _, rows, columns] => rows == columns && (rows == 1 || rows == 3)
  | _ => false

def accelConv2d (input weights bias : Outlet) (convolution : Convolution) : Edit Outlet := do
  let _ ← Edit.ask (·.typeWith input DataType.isQuantized "accel_conv2d")
  let weightsType ← Edit.ask (·.outputType weights)
  if isAcceleratedKernel weightsType then
    let type ← Edit.ask (·.convolvedTypeAt convolution input weights bias)
    applyOperator (.accelConv2d convolution) [input, weights, bias] type
  else refuse (.typeMismatch "accel_conv2d")

end Graph
end TensorCompiler
