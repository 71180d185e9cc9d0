import TensorCompiler.Memory.Allocator
import TensorCompiler.Pipeline
import TensorCompiler.Rule.Accelerator
import TensorCompiler.Rule.Activation
import TensorCompiler.Rule.Quantization
import TensorCompiler.Rule.Reshape
import TensorCompiler.Rule.Transpose

namespace TensorCompiler

/-!
# Targets

A target decides which passes run and in what order, which nodes it can
execute once they have run, and which memories it has.
-/

/-- A machine to compile for. -/
structure Target where
  name : String
  /-- The passes in order.  They do not commute, so the order belongs to the
  target. -/
  passes : List Pass
  allocators : Allocators
  /-- Whether a node can be executed as it is. -/
  supports : Node → Bool

namespace Target

/-! ## Passes -/

/-- Bring operators into the form that other passes expect. -/
def legalize : Pass :=
  ⟨"legalize", [Rule.lowerRelu]⟩

/-- The rules that remove superfluous moves of data. -/
def foldRules : List Rule :=
  [Rule.foldTwoTransposes, Rule.foldIdentityTranspose, Rule.foldTwoReshapes,
    Rule.foldIdentityReshape, Rule.foldQuantizeDequantize]

/-- Merge activations into the operators before them. -/
def fuse : Pass :=
  ⟨"fuse", [Rule.fuseClamp]⟩

/-! ## The host -/

/-- The alignment of buffers on the host, in bytes. -/
def hostAlignment : Nat := 8

/-- An allocator in the memory of the host. -/
def hostAllocator (kind : MemoryKind) : Allocator :=
  .new kind none (.aligned hostAlignment)

/-- Whether an operator runs on the accelerator or moves data to or from it. -/
def needsAccelerator (op : Operator) : Bool :=
  match op.opcode with
  | .accelUpload | .accelDownload | .accelConv2d => true
  | _ => false

/-- A host on its own. -/
def cpu : Target where
  name := "cpu"
  passes := [legalize, ⟨"fold", foldRules⟩, fuse]
  allocators := .tabulate fun kind =>
    if kind = .accelerator then none else some (hostAllocator kind)
  supports node := !needsAccelerator node.op

/-! ## A host with an accelerator -/

/-- The size of the accelerator's memory unless given otherwise, in bytes. -/
def defaultScratchpad : Nat := 2 * 1024 * 1024

/-- The width of a row of the accelerator's memory, in bytes. -/
def tileWidth : Nat := 64

/-- The quantization unless given otherwise: a scale of 1/32. -/
def defaultQuantization : Quantization :=
  ⟨Binary32.ofRatio false 1 32, 128⟩

/-- A host with an accelerator for quantized convolutions. -/
def accelerated (scratchpad : Nat) (quantization : Quantization) : Target where
  name := "accel"
  passes :=
    let fold : Pass := ⟨"fold", foldRules ++ [Rule.foldUploadDownload]⟩
    [legalize, fold, fuse, ⟨"lower", [Rule.lowerConv2dToAccel quantization]⟩, fold]
  allocators := .tabulate fun kind =>
    if kind = .accelerator then some (.new kind (some scratchpad) (.tiled tileWidth))
    else some (hostAllocator kind)
  supports node := !(node.op.opcode == .conv2d && node.marks.quantize)

/-! ## Checking a graph -/

/-- Check some nodes in order. -/
def checkNodes (target : Target) (g : Graph) : List Nat → Checked Unit
  | [] => return ()
  | id :: rest => do
    let node ← g.node id
    if target.supports node then target.checkNodes g rest
    else refuse (.unsupported node.name node.op.opcode target.name)

/-- Check that the target can execute every node that an output depends on.
The first one that it cannot, in dependency order, is reported. -/
def check (target : Target) (g : Graph) : Checked Unit :=
  target.checkNodes g g.postorder

end Target

end TensorCompiler
