import TensorCompiler.Graph.Build
import TensorCompiler.Journal
import TensorCompiler.Region

namespace TensorCompiler

/-!
# Rules

A rule recognizes a region around a node and builds something that can take
its place.  Rules only recognize and build; checking the region and moving the
readers of its results to the replacement is the same for all of them.
-/

/-- A region with the outlets that its inputs read. -/
structure Match where
  region : Region
  sources : List Outlet
  deriving DecidableEq, Repr

/-- An entry of a list that has to be there. -/
def entryAt {α : Type} (entries : List α) (index : Nat) : Checked α :=
  match entries[index]? with
  | some entry => .ok entry
  | none => abort .outOfRange

namespace Match

/-- A node of the region. -/
def node (found : Match) (index : Nat) : Checked Nat :=
  entryAt found.region.nodes index

/-- What an input of the region reads. -/
def source (found : Match) (index : Nat) : Checked Outlet :=
  entryAt found.sources index

/-- An outlet of the region that is read from outside. -/
def boundary (found : Match) (index : Nat) : Checked Outlet :=
  entryAt found.region.outputs index

end Match

/-- A way to replace a region. -/
structure Rule where
  name : String
  /-- The operators around which the rule looks for regions. -/
  anchors : List Opcode
  /-- The region around a node, if the rule applies there. -/
  recognize : Graph → Nat → Option Region
  /-- Build one outlet in place of each result of the region. -/
  build : Match → Edit (List Outlet)
  /-- What to record once the replacement is built. -/
  remarks : Match → List Event := fun _ => []

/-! ## The workbench -/

/-- A graph being worked on, with the record of the work. -/
structure Workbench where
  graph : Graph
  journal : Journal := #[]

/-- Work on a graph, recorded. -/
abbrev Work := EStateM Failure Workbench

namespace Work

variable {α : Type}

/-- Run an edit on the graph. -/
def edit (change : Edit α) : Work α := fun bench =>
  match change bench.graph with
  | .ok value graph => .ok value { bench with graph := graph }
  | .error failure graph => .error failure { bench with graph := graph }

/-- Run a computation that records events. -/
def recorded (run : Recorded α) : Work α := fun bench =>
  match run bench.journal with
  | .ok value journal => .ok value { bench with journal := journal }
  | .error failure journal => .error failure { bench with journal := journal }

/-- Record events. -/
def note (events : List Event) : Work Unit :=
  modify fun bench => { bench with journal := bench.journal ++ events.toArray }

end Work

/-! ## Applying a rule -/

namespace Rule

/-- Look up what the inputs of a region read. -/
def capture (region : Region) : Edit Match := do
  let sources ← Edit.ask fun g => region.inputs.mapM g.connectedProducer
  return ⟨region, sources⟩

/-- Check that outlets and their replacements have the same types. -/
def checkTypes (rule : String) : List (Outlet × Outlet) → Edit Unit
  | [] => return ()
  | (old, new) :: rest => do
    let oldType ← Edit.ask (·.outputType old)
    let newType ← Edit.ask (·.outputType new)
    if oldType = newType then checkTypes rule rest else refuse (.badReplacement rule)

/-- Move the readers of outlets to their replacements. -/
def moveReaders : List (Outlet × Outlet) → Edit Unit
  | [] => return ()
  | (old, new) :: rest => do
    Graph.replaceUses old new
    moveReaders rest

/-- Put replacements in the place of the results of a region. -/
def install (rule : String) (region : Region) (replacements : List Outlet) : Edit Unit := do
  if replacements.length = region.outputs.length then
    checkTypes rule (region.outputs.zip replacements)
    moveReaders (region.outputs.zip replacements)
  else refuse (.badReplacement rule)

/-- Replace a region. -/
def apply (rule : Rule) (region : Region) : Work Unit := do
  let found ← Work.edit (capture region)
  let replacements ← Work.edit (rule.build found)
  Work.note (rule.remarks found)
  Work.edit (install rule.name region replacements)

end Rule

/-! ## What rules look at -/

namespace Graph

/-- The outlet that an input of a node reads, with the operator behind it. -/
def producerOf (g : Graph) (id index : Nat) : Option (Outlet × Operator) :=
  match g.producer ⟨id, index⟩ with
  | .ok (some outlet) => (g.op? outlet.node).map fun op => (outlet, op)
  | _ => none

/-- Whether an outlet has exactly one reader. -/
def hasOneReader (g : Graph) (outlet : Outlet) : Bool :=
  match g.readers outlet with
  | .ok readers => readers.length == 1
  | .error _ => false

end Graph

end TensorCompiler
