import TensorCompiler.Schedule.Basic
import TensorCompiler.Sorting

namespace TensorCompiler
namespace Schedule

/-!
# Checking for conflicts

Buffers are looked at in the order in which they come to life.  Of those seen
before, only the ones that still live can conflict with the next, so the others
are dropped for good.
-/

/-- Buffers by the step that makes them, then by outlet. -/
def startsBefore (first second : Buffer) : Bool :=
  decide (first.first < second.first ∨
    (first.first = second.first ∧ first.outlet < second.outlet))

/-- Look for a conflict of the next buffers with living ones or among each
other. -/
def sweepConflicts : (buffers : List Buffer) → (living : PerKind (List Buffer)) →
    Checked (Option (Buffer × Buffer))
  | [], _ => return none
  | buffer :: rest, living => do
    let stillLiving := (living.get buffer.kind).filter fun other => buffer.first ≤ other.last
    match ← stillLiving.findM? fun other => other.block.overlaps buffer.block with
    | some other => return some (other, buffer)
    | none => sweepConflicts rest (living.set buffer.kind (stillLiving ++ [buffer]))

/-- Two buffers that conflict, if there are any. -/
def findConflict (buffers : List Buffer) : Checked (Option (Buffer × Buffer)) :=
  sweepConflicts (sortBy startsBefore buffers) (.tabulate fun _ => [])

/-- How a buffer is named to the user. -/
def bufferName (g : Graph) (buffer : Buffer) : String :=
  match g.node? buffer.outlet.node with
  | some node => node.name
  | none =>
    let outlet := buffer.outlet
    s!"OutputPort \x7b node: NodeId({outlet.node}), index: {outlet.index} \x7d"

/-- Check that no two buffers conflict. -/
def verify (g : Graph) (schedule : Schedule) : Checked Unit := do
  match ← findConflict schedule.buffers.values with
  | none => return ()
  | some (first, second) =>
    refuse (.overlappingBuffers (bufferName g first) (bufferName g second) first.kind)

end Schedule
end TensorCompiler
