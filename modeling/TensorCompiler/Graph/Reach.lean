import TensorCompiler.Graph.Basic
import TensorCompiler.Graph.NodeSet

namespace TensorCompiler
namespace Graph

/-!
# Reachability

A node depends on another if a path of links leads from it back to the other.
The nodes a set of roots depends on are found with a list of positions still
to be looked at.  A node is opened once, when it is first met, and then adds
one entry for each connected input; so the roots and the links of the graph
bound the number of entries ever looked at, and that bound is the fuel of the
search.

A position without a node can be asked about too.  It leads nowhere and
depends on nothing but itself.
-/

/-- The positions of the nodes that a node reads, in input order. -/
def producerIds (g : Graph) (id : Nat) : List Nat :=
  match g.node? id with
  | some node => node.producers.map Outlet.node
  | none => []

/-- The number of connected inputs of all nodes. -/
def linkCount (g : Graph) : Nat :=
  (g.slots.toList.map fun slot => slot.elim 0 fun node => node.producers.length).foldr (· + ·) 0

/-- Look at the positions in `todo`, opening those not yet in `seen`. -/
def explore (g : Graph) : (fuel : Nat) → (todo : List Nat) → (seen : NodeSet) → NodeSet
  | 0, _, seen => seen
  | _ + 1, [], seen => seen
  | fuel + 1, id :: todo, seen =>
    if seen.contains id then g.explore fuel todo seen
    else g.explore fuel (g.producerIds id ++ todo) (seen.insert id)

/-- The positions that some root depends on, the roots included. -/
def closure (g : Graph) (roots : List Nat) : NodeSet :=
  g.explore (roots.length + g.linkCount) roots (.empty g.slots.size)

/-- Whether `target` is `id` itself or a node it depends on. -/
def dependsOn (g : Graph) (id target : Nat) : Bool :=
  id == target || (g.closure [id]).contains target

/-- The positions that some declared output depends on. -/
def reachable (g : Graph) : NodeSet :=
  g.closure g.outputs

/-! ## Sweeping -/

/-- The number of nodes at positions outside `keep`. -/
def countOutside (g : Graph) (keep : NodeSet) : Nat :=
  g.nodeIds.countP fun id => !keep.contains id

/-- Forget the readers of a wire at positions outside `keep`. -/
def keepReaders (keep : NodeSet) (wire : Wire) : Wire :=
  { wire with readers := wire.readers.filter fun reader => keep.contains reader.node }

/-- Keep the nodes at the given positions only.  Wires forget the readers that
are gone, and the count loses the nodes that are. -/
def restrict (g : Graph) (keep : NodeSet) : Graph where
  slots := g.slots.mapIdx fun id slot =>
    if keep.contains id then
      slot.map fun node => { node with outputs := node.outputs.map (keepReaders keep) }
    else none
  outputs := g.outputs.filter keep.contains
  live := g.live - g.countOutside keep

/-- Remove every node that no declared output depends on.  The number of nodes
removed comes with the remaining graph. -/
def sweep (g : Graph) : Nat × Graph :=
  let keep := g.reachable
  (g.countOutside keep, g.restrict keep)

end Graph
end TensorCompiler
