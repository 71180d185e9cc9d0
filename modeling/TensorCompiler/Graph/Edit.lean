import TensorCompiler.Graph.Reach

namespace TensorCompiler

/-!
# Editing a graph

An edit runs on a graph and may fail.  The graph it leaves behind is part of
its outcome either way, because an edit made of several steps can fail after
the first of them.  A new node and a new connection are single steps and leave
the graph alone when they are refused.
-/

/-- A computation on a graph that keeps its changes when it fails. -/
abbrev Edit := EStateM Failure Graph

namespace Edit

variable {α : Type}

/-- Run a step that either succeeds or changes nothing. -/
def step (change : Graph → Checked (α × Graph)) : Edit α := fun g =>
  match change g with
  | .ok (value, changed) => .ok value changed
  | .error failure => .error failure g

/-- Ask for something in the current graph. -/
def ask (question : Graph → Checked α) : Edit α := fun g =>
  match question g with
  | .ok value => .ok value g
  | .error failure => .error failure g

end Edit

namespace Graph

/-! ## Single steps -/

/-- The memory in which an operator leaves its results. -/
def homeMemory (op : Operator) : MemoryKind :=
  match op.opcode with
  | .input => .input
  | .constant => .constant
  | .accelUpload | .accelConv2d => .accelerator
  | _ => .main

/-- A node with nothing connected to it. -/
def freshNode (op : Operator) (name : String) (types : List TensorType) : Node where
  op := op
  name := name
  inputs := List.replicate op.inputCount none
  outputs := types.map fun type => { type := type, memory := homeMemory op }

/-- The graph with one more node, at the next position.  A node for an output
is declared as such. -/
def push (g : Graph) (node : Node) : Graph where
  slots := g.slots.push (some node)
  outputs := if node.op = .output then g.outputs ++ [g.slots.size] else g.outputs
  live := g.live + 1

/-- Add an unconnected node with one type for each of its results. -/
def addNode (op : Operator) (name : String) (types : List TensorType) : Edit Nat :=
  Edit.step fun g =>
    if types.length = op.outputCount then
      .ok (g.slots.size, g.push (freshNode op name types))
    else refuse (.badIndex types.length)

/-- The graph in which an inlet reads an outlet.  Asking for a link that is
there already is harmless; any other producer has to be disconnected first,
and a link that would close a cycle is refused. -/
def connected (g : Graph) (inlet : Inlet) (outlet : Outlet) : Checked Graph := do
  let consumer ← g.node inlet.node
  let previous ← consumer.source inlet.index
  let producer ← g.node outlet.node
  let _ ← g.wire outlet
  match previous with
  | some source => if source = outlet then .ok g else refuse (.alreadyConnected consumer.name)
  | none =>
    if g.dependsOn outlet.node inlet.node then
      refuse (.wouldCycle consumer.name producer.name)
    else .ok (g.link inlet outlet)

/-- Make an inlet read an outlet. -/
def connect (inlet : Inlet) (outlet : Outlet) : Edit Unit :=
  Edit.step fun g => return ((), ← g.connected inlet outlet)

/-- Change a node that has to exist. -/
def updateNode (id : Nat) (change : Node → Node) : Edit Unit :=
  Edit.step fun g => do
    let _ ← g.node id
    return ((), g.modifyNode id change)

/-- Change a wire that has to exist. -/
def updateWire (outlet : Outlet) (change : Wire → Wire) : Edit Unit :=
  Edit.step fun g => do
    let _ ← g.wire outlet
    return ((), g.modifyWire outlet change)

def setName (id : Nat) (name : String) : Edit Unit :=
  updateNode id fun node => { node with name := name }

def updateMarks (id : Nat) (change : Marks → Marks) : Edit Unit :=
  updateNode id fun node => { node with marks := change node.marks }

def setMemoryKind (outlet : Outlet) (kind : MemoryKind) : Edit Unit :=
  updateWire outlet fun wire => { wire with memory := kind }

def setNoReuse (outlet : Outlet) (noReuse : Bool) : Edit Unit :=
  updateWire outlet fun wire => { wire with noReuse := noReuse }

/-! ## Edits in several steps -/

/-- Make an inlet read nothing, and return what it read.  The inlet's own end
is cleared first; the wire has to exist and to know the inlet as a reader. -/
def disconnect (inlet : Inlet) : Edit (Option Outlet) := do
  match ← Edit.ask (·.producer inlet) with
  | none => return none
  | some outlet =>
    modify (·.setSource inlet none)
    let wire ← Edit.ask (·.wire outlet)
    if inlet ∈ wire.readers then
      modify (·.modifyWire outlet fun wire => { wire with readers := wire.readers.erase inlet })
      return some outlet
    else abort .brokenLink

/-- Clear the inlet's own end of a link. -/
def clearSource (inlet : Inlet) : Edit Unit :=
  Edit.step fun g => do
    let node ← g.node inlet.node
    if inlet.index < node.inputs.length then return ((), g.setSource inlet none)
    else abort .outOfRange

/-- Make each of some inlets read an outlet, whatever it read before. -/
def redirect (outlet : Outlet) : List Inlet → Edit Unit
  | [] => return ()
  | inlet :: rest => do
    clearSource inlet
    connect inlet outlet
    redirect outlet rest

/-- Make every reader of one outlet read another instead.  The readers are
taken off the old wire together and then moved one by one. -/
def replaceUses (old new : Outlet) : Edit Unit := do
  if old = new then return ()
  let wire ← Edit.ask (·.wire old)
  modify (·.modifyWire old fun wire => { wire with readers := [] })
  redirect new wire.readers

/-- Remove what no declared output depends on, and return how many nodes that
were. -/
def removeUnreachable : Edit Nat := fun g =>
  let (removed, swept) := g.sweep
  .ok removed swept

end Graph

end TensorCompiler
