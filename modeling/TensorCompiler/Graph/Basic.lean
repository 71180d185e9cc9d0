import TensorCompiler.Tensor

namespace TensorCompiler

/-!
# Dataflow graphs

A graph is an arena of nodes.  A node reads one wire through each of its
inputs and drives one wire from each of its outputs.  A link is stored at both
ends: an input names the outlet it reads, and the wire at that outlet lists
the inlets that read it.

Handles are positions in the arena.  A removed node leaves its position empty,
so the handle of a node that is gone never comes to mean another one.
-/

/-- An input of a node, given by the position of the node and its own among
the inputs. -/
structure Inlet where
  node : Nat
  index : Nat
  deriving DecidableEq, Repr

/-- An output of a node, given by the position of the node and its own among
the outputs. -/
structure Outlet where
  node : Nat
  index : Nat
  deriving DecidableEq, Repr

namespace Inlet

/-- Inlets are ordered by node, then by position. -/
instance : LT Inlet :=
  ⟨fun first second => first.node < second.node ∨
    (first.node = second.node ∧ first.index < second.index)⟩

instance (first second : Inlet) : Decidable (first < second) :=
  inferInstanceAs (Decidable (_ ∨ _))

/-- Add an inlet to an increasing list, once. -/
def insertInto (inlet : Inlet) : List Inlet → List Inlet
  | [] => [inlet]
  | head :: rest =>
    if inlet < head then inlet :: head :: rest
    else if inlet = head then head :: rest
    else head :: insertInto inlet rest

theorem mem_insertInto {inlet other : Inlet} {inlets : List Inlet} :
    other ∈ inlet.insertInto inlets ↔ other = inlet ∨ other ∈ inlets := by
  induction inlets with
  | nil => simp [insertInto]
  | cons head rest ih =>
    unfold insertInto
    split
    · simp
    · split
      · next same => simp [same]
      · simp only [List.mem_cons, ih]
        constructor
        · rintro (rfl | rfl | h) <;> simp [*]
        · rintro (rfl | rfl | h) <;> simp [*]

end Inlet

namespace Outlet

/-- Outlets are ordered by node, then by position. -/
instance : LT Outlet :=
  ⟨fun first second => first.node < second.node ∨
    (first.node = second.node ∧ first.index < second.index)⟩

instance (first second : Outlet) : Decidable (first < second) :=
  inferInstanceAs (Decidable (_ ∨ _))

theorem lt_iff {first second : Outlet} : first < second ↔
    first.node < second.node ∨ (first.node = second.node ∧ first.index < second.index) :=
  Iff.rfl

theorem lt_trans {first second third : Outlet} (low : first < second) (high : second < third) :
    first < third := by
  rw [lt_iff] at *
  omega

theorem lt_irrefl (outlet : Outlet) : ¬ outlet < outlet := by
  rw [lt_iff]
  omega

theorem lt_of_not_lt_of_ne {first second : Outlet} (notLess : ¬ first < second)
    (different : first ≠ second) : second < first := by
  obtain ⟨node, index⟩ := first
  obtain ⟨otherNode, otherIndex⟩ := second
  simp only [lt_iff, ne_eq, mk.injEq] at *
  omega

end Outlet

/-- What leaves an outlet. -/
structure Wire where
  type : TensorType
  memory : MemoryKind
  /-- The buffer must not be given to another value, whatever its readers. -/
  noReuse : Bool := false
  /-- The inlets that read this wire, increasing. -/
  readers : List Inlet := []
  deriving DecidableEq, Repr

/-- Marks that steer the rules. -/
structure Marks where
  /-- The node takes part in quantization. -/
  quantize : Bool := false
  /-- The node must not be merged with a neighbour. -/
  skipFusion : Bool := false
  deriving DecidableEq, Repr

namespace Marks

/-- The marks set in either. -/
def insert (marks other : Marks) : Marks :=
  ⟨marks.quantize || other.quantize, marks.skipFusion || other.skipFusion⟩

/-- The marks not set in `other`. -/
def remove (marks other : Marks) : Marks :=
  ⟨marks.quantize && !other.quantize, marks.skipFusion && !other.skipFusion⟩

/-- Whether every mark of `other` is set. -/
def contains (marks other : Marks) : Bool :=
  (marks.quantize || !other.quantize) && (marks.skipFusion || !other.skipFusion)

end Marks

/-- One operation with its operands and results. -/
structure Node where
  op : Operator
  name : String
  /-- The outlet read by each input, if connected. -/
  inputs : List (Option Outlet)
  outputs : List Wire
  marks : Marks := {}
  deriving DecidableEq, Repr

namespace Node

/-- The outlets read by the connected inputs, in input order. -/
def producers (node : Node) : List Outlet :=
  node.inputs.filterMap id

/-- The outlet read by an input, which has to exist. -/
def source (node : Node) (index : Nat) : Checked (Option Outlet) :=
  match node.inputs[index]? with
  | some source => .ok source
  | none => refuse (.badIndex index)

end Node

/-- A graph: nodes by position, and the declared outputs in the order of their
declaration. -/
structure Graph where
  slots : Array (Option Node) := #[]
  outputs : List Nat := []
  /-- How many positions hold a node, counted as nodes come and go. -/
  live : Nat := 0
  deriving DecidableEq, Repr

namespace Graph

def empty : Graph := {}

/-! ## Looking things up -/

/-- The node at a position. -/
def node? (g : Graph) (id : Nat) : Option Node :=
  g.slots[id]?.join

def contains (g : Graph) (id : Nat) : Bool :=
  (g.node? id).isSome

/-- The number of nodes. -/
def size (g : Graph) : Nat :=
  g.live

/-- The positions of all nodes, in the order of their creation. -/
def nodeIds (g : Graph) : List Nat :=
  (List.range g.slots.size).filter g.contains

def node (g : Graph) (id : Nat) : Checked Node :=
  match g.node? id with
  | some node => .ok node
  | none => refuse .badNode

def op? (g : Graph) (id : Nat) : Option Operator :=
  (g.node? id).map Node.op

/-- The wire at an outlet. -/
def wire (g : Graph) (outlet : Outlet) : Checked Wire := do
  let node ← g.node outlet.node
  match node.outputs[outlet.index]? with
  | some wire => .ok wire
  | none => refuse (.badIndex outlet.index)

/-- The outlet that an inlet reads, if it is connected. -/
def producer (g : Graph) (inlet : Inlet) : Checked (Option Outlet) := do
  (← g.node inlet.node).source inlet.index

/-- The outlet that an inlet reads; the inlet has to be connected. -/
def connectedProducer (g : Graph) (inlet : Inlet) : Checked Outlet := do
  let node ← g.node inlet.node
  match ← node.source inlet.index with
  | some outlet => .ok outlet
  | none => refuse (.unconnected node.name inlet.index)

def readers (g : Graph) (outlet : Outlet) : Checked (List Inlet) :=
  return (← g.wire outlet).readers

def outputType (g : Graph) (outlet : Outlet) : Checked TensorType :=
  return (← g.wire outlet).type

def memoryKind (g : Graph) (outlet : Outlet) : Checked MemoryKind :=
  return (← g.wire outlet).memory

/-! ## Elementary changes

These are total.  A change at a position that holds no node changes nothing.
-/

/-- Change the node at a position. -/
def modifyNode (g : Graph) (id : Nat) (change : Node → Node) : Graph :=
  { g with slots := g.slots.modify id (Option.map change) }

/-- Change the wire at an outlet. -/
def modifyWire (g : Graph) (outlet : Outlet) (change : Wire → Wire) : Graph :=
  g.modifyNode outlet.node fun node =>
    { node with outputs := node.outputs.modify outlet.index change }

/-- Make an inlet read the given outlet, or nothing, at its own end only. -/
def setSource (g : Graph) (inlet : Inlet) (source : Option Outlet) : Graph :=
  g.modifyNode inlet.node fun node => { node with inputs := node.inputs.set inlet.index source }

/-- Store a link at both ends. -/
def link (g : Graph) (inlet : Inlet) (outlet : Outlet) : Graph :=
  (g.setSource inlet (some outlet)).modifyWire outlet fun wire =>
    { wire with readers := inlet.insertInto wire.readers }

theorem node?_modifyNode (g : Graph) (id other : Nat) (change : Node → Node) :
    (g.modifyNode id change).node? other =
      if other = id then (g.node? id).map change else g.node? other := by
  simp only [node?, modifyNode, Array.getElem?_modify]
  by_cases same : other = id
  · subst same
    cases g.slots[other]? with
    | none => simp
    | some slot => cases slot <;> simp
  · simp [same, Ne.symm same]

end Graph

end TensorCompiler
