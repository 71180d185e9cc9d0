import TensorCompiler.Rule

namespace TensorCompiler
namespace Rule

/-!
# The accelerator

A convolution is moved onto the accelerator by quantizing its input and its
weights; the result is copied back and dequantized.  Between two convolutions
the copies cancel out.
-/

/-- Whether the weights at an outlet suit the accelerator. -/
def hasAcceleratedWeights (g : Graph) (weights : Outlet) : Bool :=
  match g.outputType weights with
  | .ok type => type.dtype == .f32 && Graph.isAcceleratedKernel type
  | .error _ => false

/-- Whether a node is marked for quantization. -/
def isMarkedQuantize (g : Graph) (id : Nat) : Bool :=
  match g.node? id with
  | some node => node.marks.quantize
  | none => false

/-- A marked convolution with suitable constant weights moves onto the
accelerator. -/
def lowerConv2dToAccel (quantization : Quantization) : Rule where
  name := "lower_conv2d_to_accel"
  anchors := [.conv2d]
  recognize g id :=
    if isMarkedQuantize g id then
      match g.producerOf id 1 with
      | some (weights, .constant _) =>
        if hasAcceleratedWeights g weights then Region.single g id else none
      | _ => none
    else none
  build found := do
    let g ← get
    let node ← g.node (← found.node 0)
    let input ← found.source 0
    let weights ← found.source 1
    let bias ← found.source 2
    match node.op, g.op? weights.node with
    | .conv2d convolution, some (.constant data) =>
      let weightsType ← g.outputType weights
      let stored ← Graph.constant ⟨.u8, weightsType.shape⟩ (quantization.quantizeBytes data)
      let quantized ← Graph.quantize input quantization .u8
      let uploaded ← Graph.accelUpload quantized
      let convolved ← Graph.accelConv2d uploaded stored bias convolution
      let downloaded ← Graph.accelDownload convolved
      return [← Graph.dequantize downloaded quantization]
    | _, _ => refuse (.badReplacement "lower_conv2d_to_accel")
  remarks found := (found.region.nodes.head?.map Event.loweredToAccelerator).toList

/-- Whether the values at an outlet are in accelerator memory. -/
def isOnAccelerator (g : Graph) (outlet : Outlet) : Bool :=
  match g.memoryKind outlet with
  | .ok kind => kind == .accelerator
  | .error _ => false

/-- Copying back what was just copied out of accelerator memory does nothing,
provided that it was in that memory. -/
def foldUploadDownload : Rule where
  name := "fold_upload_download"
  anchors := [.accelUpload]
  recognize g id :=
    match g.producerOf id 0 with
    | some (outlet, .accelDownload) =>
      match g.producerOf outlet.node 0 with
      | some (source, _) =>
        if g.hasOneReader outlet && isOnAccelerator g source then Region.chain g outlet.node id
        else none
      | none => none
    | _ => none
  build found := return [← found.source 0]

end Rule
end TensorCompiler
