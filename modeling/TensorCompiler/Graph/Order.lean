import TensorCompiler.Graph.Reach

namespace TensorCompiler
namespace Graph

/-!
# Dependency order

A walk visits every node that a declared output depends on, after all nodes
it reads.  It goes depth first, through the declared outputs in order and
through the inputs of each node in order, and it may stop at any node.

The walk keeps an agenda.  Entering a node puts its producers on the agenda,
to be entered first, and then the leaving of the node, which is when it is
visited.  Producers that have been seen are left off, and those that are seen
between their listing and their turn are passed over.  So a node is entered
once, and the declared outputs, the links and the nodes of the graph bound the
number of items ever taken from the agenda.
-/

/-- An item of the agenda. -/
inductive Visit where
  /-- Go to a node and to what it reads. -/
  | enter (id : Nat)
  /-- Come back to a node whose producers are done. -/
  | leave (id : Nat)
  deriving DecidableEq, Repr

variable {β : Type}

/-- The producers of a node that have not been seen. -/
def unseenProducers (g : Graph) (seen : NodeSet) (id : Nat) : List Nat :=
  (g.producerIds id).filter fun source => !seen.contains source

/-- Work off an agenda.  The result holds the nodes visited in order, and what
the visit that stopped the walk returned. -/
def followAgenda (g : Graph) (visit : Nat → Option β) :
    (fuel : Nat) → (agenda : List Visit) → (seen : NodeSet) → List Nat × Option β
  | 0, _, _ => ([], none)
  | _ + 1, [], _ => ([], none)
  | fuel + 1, .leave id :: agenda, seen =>
    match visit id with
    | some result => ([id], some result)
    | none =>
      let (visited, result) := g.followAgenda visit fuel agenda seen
      (id :: visited, result)
  | fuel + 1, .enter id :: agenda, seen =>
    if seen.contains id then g.followAgenda visit fuel agenda seen
    else if g.contains id then
      let seen := seen.insert id
      g.followAgenda visit fuel
        ((g.unseenProducers seen id).map Visit.enter ++ Visit.leave id :: agenda) seen
    else g.followAgenda visit fuel agenda seen

/-- Visit the nodes in dependency order until a visit returns a result. -/
def walk (g : Graph) (visit : Nat → Option β) : List Nat × Option β :=
  g.followAgenda visit (g.outputs.length + g.linkCount + g.slots.size)
    (g.outputs.map Visit.enter) (.empty g.slots.size)

/-- Every node that a declared output depends on, in dependency order. -/
def postorder (g : Graph) : List Nat :=
  (g.walk fun _ => (none : Option Unit)).1

end Graph
end TensorCompiler
