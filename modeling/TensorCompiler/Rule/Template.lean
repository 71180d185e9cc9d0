import TensorCompiler.Rule

namespace TensorCompiler

/-!
# Rules from templates

A template describes a rule as data: where it applies, which region it takes,
and from what the replacements are made.  It can describe regions that cannot
be replaced and replacements that do not fit; what then happens is decided
where rules are applied.
-/

namespace Template

/-- How to obtain an outlet from a match. -/
inductive Source where
  /-- What an input of the region reads. -/
  | source (index : Nat)
  /-- The first result of a node of the region. -/
  | node (index : Nat)
  /-- A result of the region. -/
  | boundary (index : Nat)
  /-- A fixed outlet. -/
  | fixed (outlet : Outlet)
  /-- A new node that applies a function. -/
  | unary (function : UnaryFunction) (operand : Source)
  deriving DecidableEq, Repr

/-- Which region to take around a node. -/
inductive Extent where
  /-- The node alone. -/
  | single
  /-- The node and the producer of its first input. -/
  | chain
  /-- The same region always. -/
  | fixed (region : Region)
  deriving DecidableEq, Repr

end Template

/-- A rule given as data. -/
structure Template where
  anchors : List Opcode
  /-- The only node at which the rule applies. -/
  only : Option Nat := none
  /-- The only function to which the rule applies. -/
  function : Option UnaryFunction := none
  extent : Template.Extent
  replacements : List Template.Source := []
  deriving DecidableEq, Repr

namespace Template

/-- Obtain an outlet, adding nodes for functions. -/
def Source.obtain (found : Match) : Source → Edit Outlet
  | source index => do found.source index
  | node index => return ⟨← found.node index, 0⟩
  | boundary index => do found.boundary index
  | fixed outlet => return outlet
  | unary function operand => do Graph.unary function (← operand.obtain found)

/-- The region around a node. -/
def Extent.region (extent : Extent) (g : Graph) (id : Nat) : Option Region :=
  match extent with
  | single => Region.single g id
  | chain =>
    match g.connectedProducer ⟨id, 0⟩ with
    | .ok outlet => some
        { nodes := [outlet.node, id], inputs := [⟨outlet.node, 0⟩], outputs := [⟨id, 0⟩] }
    | .error _ => none
  | fixed region => some region

/-- Whether the template applies at a node. -/
def appliesAt (template : Template) (g : Graph) (id : Nat) : Bool :=
  template.only.all (fun only => only == id) &&
    template.function.all fun function => g.op? id == some (.unary function)

/-- The rule that a template describes. -/
def rule (template : Template) : Rule where
  name := "custom"
  anchors := template.anchors
  recognize g id := if template.appliesAt g id then template.extent.region g id else none
  build found := template.replacements.mapM (Source.obtain found)

end Template

end TensorCompiler
