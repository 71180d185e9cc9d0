import TensorCompiler.Rule

namespace TensorCompiler
namespace Rule

/-!
# Activations

Rectifiers become clamps, and clamps become part of the convolution or matrix
product that feeds them.
-/

/-- A rectifier is the clamp to the numbers from zero on. -/
def lowerRelu : Rule where
  name := "lower_relu"
  anchors := [.unary]
  recognize g id := if g.op? id = some (.unary .relu) then Region.single g id else none
  build found := return [← Graph.clamp (← found.source 0) .nonnegative]

/-- Whether a node must be left as it is. -/
def skipsFusion (g : Graph) (id : Nat) : Bool :=
  match g.node? id with
  | some node => node.marks.skipFusion
  | none => true

/-- Whether an operator has a clamp of its own at its end. -/
def endsInClamp (op : Operator) : Bool :=
  op.opcode == .conv2d || op.opcode == .matMul

/-- Build a producer anew with a further clamp at its end. -/
def withFurtherClamp (found : Match) (op : Operator) (range : ClampRange) : Edit Outlet := do
  match op with
  | .conv2d convolution =>
    Graph.conv2d (← found.source 0) (← found.source 1) (← found.source 2)
      { convolution with clamp := convolution.clamp.intersect range }
  | .matMul clamp => Graph.matMul (← found.source 0) (← found.source 1) (clamp.intersect range)
  | _ => refuse (.badReplacement "fuse_clamp")

/-- A clamp with a convolution or matrix product before it that nothing else
reads becomes part of it.  The new node keeps the marks of the old one. -/
def fuseClamp : Rule where
  name := "fuse_clamp"
  anchors := [.clamp]
  recognize g id :=
    match g.producerOf id 0 with
    | some (outlet, op) =>
      if endsInClamp op && g.hasOneReader outlet && !skipsFusion g outlet.node &&
          !skipsFusion g id then
        Region.chain g outlet.node id
      else none
    | none => none
  build found := do
    let g ← get
    match g.op? (← found.node 1) with
    | some (.clamp range) =>
      let producer ← g.node (← found.node 0)
      let fused ← withFurtherClamp found producer.op range
      Graph.updateMarks fused.node fun _ => producer.marks
      return [fused]
    | _ => refuse (.badReplacement "fuse_clamp")

end Rule
end TensorCompiler
