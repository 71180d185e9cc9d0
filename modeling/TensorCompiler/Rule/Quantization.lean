import TensorCompiler.Rule

namespace TensorCompiler
namespace Rule

/-!
# Quantization
-/

/-- Whether the values at an outlet have a given element type. -/
def hasElements (g : Graph) (outlet : Outlet) (dtype : DataType) : Bool :=
  match g.outputType outlet with
  | .ok type => type.dtype == dtype
  | .error _ => false

/-- Quantizing what was just dequantized, with the same parameters and into
the same type, gives back the quantized value. -/
def foldQuantizeDequantize : Rule where
  name := "fold_quantize_dequantize"
  anchors := [.quantize]
  recognize g id :=
    match g.op? id, g.producerOf id 0 with
    | some (.quantize quantization dtype), some (outlet, .dequantize previous) =>
      match g.producerOf outlet.node 0 with
      | some (source, _) =>
        if quantization.agrees previous && hasElements g source dtype && g.hasOneReader outlet then
          Region.chain g outlet.node id
        else none
      | none => none
    | _, _ => none
  build found := return [← found.source 0]

end Rule
end TensorCompiler
