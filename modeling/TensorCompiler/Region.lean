import TensorCompiler.Graph.Reach

namespace TensorCompiler

/-!
# Regions

A region is a part of a graph that is to be replaced as a whole.  It lists its
nodes, the inlets through which it reads from outside, and the outlets that
are read from outside.

A region can be replaced if these lists are exact, if everything else it
produces is read inside only, and if no path leads out of it and back in.  The
last condition makes sure that a replacement, which may hang on anything the
region reads, never depends on the region itself.
-/

/-- A part of a graph with its boundary. -/
structure Region where
  nodes : List Nat := []
  /-- The inlets of the nodes that read from outside. -/
  inputs : List Inlet := []
  /-- The outlets of the nodes that are read from outside. -/
  outputs : List Outlet := []
  deriving DecidableEq, Repr

namespace Region

/-! ## Regions of one or two nodes -/

/-- The region of one node with one result. -/
def single (g : Graph) (id : Nat) : Option Region := do
  let node ← g.node? id
  return {
    nodes := [id]
    inputs := (List.range node.inputs.length).map (Inlet.mk id)
    outputs := [⟨id, 0⟩] }

/-- The connected inputs of a node that do not read from another given node. -/
def inletsPast (id : Nat) (node : Node) (skipped : Nat) : List Inlet :=
  node.inputs.zipIdx.filterMap fun (source, index) =>
    match source with
    | some outlet => if outlet.node = skipped then none else some ⟨id, index⟩
    | none => none

/-- The region of two nodes, the second of which reads the first. -/
def chain (g : Graph) (first second : Nat) : Option Region := do
  let firstNode ← g.node? first
  let secondNode ← g.node? second
  return {
    nodes := [first, second]
    inputs := (List.range firstNode.inputs.length).map (Inlet.mk first) ++
      inletsPast second secondNode first
    outputs := [⟨second, 0⟩] }

/-! ## Regions that can be replaced -/

/-- Every input of a node is connected, and is listed exactly if it reads from
outside. -/
def inputsListed (region : Region) (id : Nat) (node : Node) : Bool :=
  node.inputs.zipIdx.all fun (source, index) =>
    match source with
    | some outlet =>
      region.inputs.contains ⟨id, index⟩ == !region.nodes.contains outlet.node
    | none => false

/-- Every result of a node is listed or read inside only. -/
def outputsListed (region : Region) (id : Nat) (node : Node) : Bool :=
  node.outputs.zipIdx.all fun (wire, index) =>
    region.outputs.contains ⟨id, index⟩ ||
      wire.readers.all fun reader => region.nodes.contains reader.node

/-- A node can be part of the region. -/
def admits (region : Region) (g : Graph) (id : Nat) : Bool :=
  match g.node? id with
  | some node => node.op != .output && region.inputsListed id node && region.outputsListed id node
  | none => false

/-- What a listed inlet reads does not depend on the region. -/
def readsFromBefore (region : Region) (g : Graph) (inlet : Inlet) : Bool :=
  match g.producer inlet with
  | .ok (some outlet) => region.nodes.all fun id => !g.dependsOn outlet.node id
  | _ => false

/-- Whether the region can be replaced. -/
def isReplaceable (region : Region) (g : Graph) : Bool :=
  !region.nodes.isEmpty && decide region.nodes.Nodup && decide region.inputs.Nodup &&
    decide region.outputs.Nodup &&
    region.outputs.all (fun outlet => region.nodes.contains outlet.node) &&
    region.nodes.all (region.admits g) && region.inputs.all (region.readsFromBefore g)

end Region

end TensorCompiler
