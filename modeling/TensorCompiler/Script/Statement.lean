import TensorCompiler.Graph.Build
import TensorCompiler.Text.Words

namespace TensorCompiler

/-!
# Statements of a script

A line of a script reads `name opcode arguments`.  Arguments are names of
earlier lines, lists of numbers parted by commas, numbers, or element types.
Names are looked up while the arguments are read, so a statement refers to
values by their outlets.
-/

/-- What a line asks for. -/
inductive Statement where
  | input (type : TensorType)
  | output (value : Outlet)
  | constant (type : TensorType) (data : List UInt8)
  | transpose (value : Outlet) (axes : List Nat)
  | reshape (value : Outlet) (dims : List Nat)
  | clamp (value : Outlet) (range : ClampRange)
  | conv2d (image weights bias : Outlet) (convolution : Convolution)
  | matMul (first second : Outlet)
  | quantize (value : Outlet) (quantization : Quantization) (dtype : DataType)
  | dequantize (value : Outlet) (quantization : Quantization)
  | unary (function : UnaryFunction) (value : Outlet)
  | binary (function : BinaryFunction) (first second : Outlet)
  deriving DecidableEq, Repr

/-- Carry out a statement.  All but outputs yield a value. -/
def Statement.build (name : String) : Statement → Edit (Option Outlet)
  | input type => some <$> Graph.input name type
  | output value => do
    let _ ← Graph.output name value
    return none
  | constant type data => some <$> Graph.constant type data
  | transpose value axes => some <$> Graph.transpose value axes
  | reshape value dims => some <$> Graph.reshape value dims
  | clamp value range => some <$> Graph.clamp value range
  | conv2d image weights bias convolution =>
    some <$> Graph.conv2d image weights bias convolution
  | matMul first second => some <$> Graph.matMul first second .unbounded
  | quantize value quantization dtype => some <$> Graph.quantize value quantization dtype
  | dequantize value quantization => some <$> Graph.dequantize value quantization
  | unary function value => some <$> Graph.unary function value
  | binary function first second => some <$> Graph.binary function first second

namespace Script

/-! ## Reading arguments -/

/-- What is known when the arguments of a line are read. -/
structure LineContext where
  /-- The number of the line, from one on. -/
  line : Nat
  /-- The values named so far, the latest first. -/
  names : List (String × Outlet)
  deriving DecidableEq, Repr

/-- Read arguments from the words of a line. -/
abbrev ArgumentReader := StateT (List (List Char)) Checked

/-- The next word, if there is one. -/
def nextWord? : ArgumentReader (Option (List Char))
  | [] => .ok (none, [])
  | word :: rest => .ok (some word, rest)

/-- The most bytes that can be held together: a block of memory may span half
of the words. -/
def mostBytes : Nat :=
  0x7fffffffffffffff

/-- Bytes repeated the given number of times, if they can be held. -/
def repeated (count : Nat) (bytes : List UInt8) : Checked (List UInt8) :=
  if count * bytes.length ≤ mostBytes then return (List.replicate count bytes).flatten
  else abort .overflow

namespace LineContext

variable (context : LineContext)

/-- Refuse the line. -/
def fail {α : Type} (fault : LineFault) : Checked α :=
  refuse (.badLine context.line fault)

/-- The next word, which has to be there. -/
def word : ArgumentReader (List Char)
  | [] => context.fail .missingArgument
  | word :: rest => .ok (word, rest)

/-- The value that a word names. -/
def resolve (word : List Char) : Checked Outlet :=
  match context.names.lookup (String.ofList word) with
  | some outlet => .ok outlet
  | none => refuse (.unknownValue (String.ofList word))

/-- The numbers that a word lists. -/
def numbers (word : List Char) : Checked (List Nat) :=
  if String.ofList word = "scalar" then return []
  else (Text.splitWhere (· == ',') word).mapM fun piece =>
    match Text.readNatural? Word.largest piece with
    | some n => .ok n
    | none => context.fail .badIntegerList

/-- The binary32 number that a word spells. -/
def decimal (word : List Char) : Checked Binary32 :=
  match Binary32.read? word with
  | some x => .ok x
  | none => context.fail .badNumber

/-- The element type that a word names. -/
def elementType (word : List Char) : Checked DataType :=
  match DataType.ofName? (String.ofList word) with
  | some dtype => .ok dtype
  | none => context.fail .badDataType

/-- Read the name of a value. -/
def value : ArgumentReader Outlet := do
  context.resolve (← context.word)

/-- Read an element type and dimensions. -/
def tensorType : ArgumentReader TensorType := do
  let dtype ← context.elementType (← context.word)
  let dims ← context.numbers (← context.word)
  match TensorType.ofDims? dtype dims with
  | some type => return type
  | none => refuse (.badRank dims.length)

/-- Read the parameters of a quantization. -/
def quantization : ArgumentReader Quantization := do
  let scale ← context.decimal (← context.word)
  let zeroPoint ← context.decimal (← context.word)
  return ⟨scale, zeroPoint.truncate (-0x80000000) 0x7fffffff⟩

/-- Read two numbers, if there is another word. -/
def pair? (fault : LineFault) : ArgumentReader (Option (Nat × Nat)) := do
  match ← nextWord? with
  | none => return none
  | some word =>
    match ← context.numbers word with
    | [first, second] => return some (first, second)
    | _ => context.fail fault

/-- Read the strides and then the paddings of a convolution, as far as they
are given. -/
def convolution : ArgumentReader Convolution := do
  let (strideHeight, strideWidth) := (← context.pair? .strideLength).getD (1, 1)
  let (paddingHeight, paddingWidth) := (← context.pair? .paddingLength).getD (0, 0)
  return { strideHeight, strideWidth, paddingHeight, paddingWidth }

/-- The bytes of a constant that holds one number throughout.  A number that
is no element of an integer type is truncated and saturated; in half precision
only zero can be written. -/
def filled (type : TensorType) (fill : Binary32) : Checked (List UInt8) := do
  let count ← type.elements
  match type.dtype with
  | .f32 => repeated count fill.toBytes
  | .i32 =>
    repeated count (Bytes.number 4 ((fill.truncate (-0x80000000) 0x7fffffff) % 0x100000000).toNat)
  | .i8 => repeated count [UInt8.ofNat ((fill.truncate (-128) 127) % 256).toNat]
  | .u8 => repeated count [UInt8.ofNat (fill.truncate 0 255).toNat]
  | .f16 =>
    if fill.agrees .zero then repeated (← type.bytes) [0] else context.fail .halfPrecisionFill

/-- Read the type of a constant and the number it holds, zero if not given. -/
def constant : ArgumentReader Statement := do
  let type ← context.tensorType
  let fill ← match ← nextWord? with
    | some word => context.decimal word
    | none => pure .zero
  return .constant type (← context.filled type fill)

/-- Read the arguments of an elementwise function. -/
def elementwise (opcode : String) : ArgumentReader Statement := do
  match UnaryFunction.ofName? opcode, BinaryFunction.ofName? opcode with
  | some function, _ => return .unary function (← context.value)
  | none, some function => return .binary function (← context.value) (← context.value)
  | none, none => refuse (.unknownOpcode opcode)

/-- Read the arguments that an opcode takes. -/
def statement (opcode : String) : ArgumentReader Statement := do
  match opcode with
  | "input" => return .input (← context.tensorType)
  | "output" => return .output (← context.value)
  | "const" => context.constant
  | "transpose" => return .transpose (← context.value) (← context.numbers (← context.word))
  | "reshape" => return .reshape (← context.value) (← context.numbers (← context.word))
  | "clamp" =>
    let value ← context.value
    let min ← context.decimal (← context.word)
    let max ← context.decimal (← context.word)
    return .clamp value ⟨min, max⟩
  | "conv2d" =>
    return .conv2d (← context.value) (← context.value) (← context.value) (← context.convolution)
  | "matmul" => return .matMul (← context.value) (← context.value)
  | "quantize" =>
    return .quantize (← context.value) (← context.quantization)
      (← context.elementType (← context.word))
  | "dequantize" => return .dequantize (← context.value) (← context.quantization)
  | opcode => context.elementwise opcode

end LineContext

end Script

end TensorCompiler
