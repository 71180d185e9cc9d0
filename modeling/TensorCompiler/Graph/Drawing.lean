import TensorCompiler.Graph.Basic

namespace TensorCompiler
namespace Graph

/-!
# Drawings

A graph is drawn in the DOT language: one line for each node, coloured by what
its operator works on, followed by one line for each of its connected inputs.
-/

/-- The family of colours of an operator. -/
def colour (op : Operator) : String :=
  match op.opcode with
  | .input | .output => "red"
  | .constant => "green"
  | .accelUpload | .accelDownload | .accelConv2d => "purple"
  | _ => "blue"

/-- The outline of an operator. -/
def outline (op : Operator) : String :=
  match op.opcode with
  | .input | .output => "circle"
  | .constant => "oval"
  | _ => "box"

/-- The line that draws a node. -/
def nodeLine (id : Nat) (node : Node) : String :=
  s!"n{id} [label = \"{node.name}\\n{node.op.label}\" color=\"{colour node.op}1\" " ++
    s!"shape=\"{outline node.op}\" fontcolor=\"{colour node.op}4\"]\n"

/-- The lines that draw the connected inputs of a node. -/
def linkLines (id : Nat) (node : Node) : String :=
  String.join (node.inputs.mapIdx fun index source =>
    match source with
    | some outlet => s!"n{outlet.node} -> n{id} [label = \"{index}\"]\n"
    | none => "")

/-- The drawing of a graph. -/
def drawing (g : Graph) : String :=
  let body := g.nodeIds.map fun id =>
    match g.node? id with
    | some node => nodeLine id node ++ linkLines id node
    | none => ""
  "digraph mygraph\x7b\n" ++ String.join body ++ "\x7d\n"

end Graph
end TensorCompiler
