import TensorCompiler.Schedule.Buffer

namespace TensorCompiler

/-!
# Schedules

A schedule is what code generation needs: the nodes in the order in which they
run, and the buffer of every value.
-/

/-- An execution order with a placement of all values. -/
structure Schedule where
  /-- The nodes in the order in which they run. -/
  sequence : List Nat
  buffers : OutletMap Buffer
  /-- The end of the highest buffer of each kind. -/
  highWater : PerKind Nat
  /-- The most bytes of each kind that are needed at the same step. -/
  peakLive : PerKind Nat

namespace Schedule

/-- The schedule of nothing. -/
def empty : Schedule where
  sequence := []
  buffers := .empty
  highWater := .tabulate fun _ => 0
  peakLive := .tabulate fun _ => 0

/-- The block of the value at an outlet. -/
def block? (schedule : Schedule) (outlet : Outlet) : Option Block :=
  (schedule.buffers.get? outlet).map Buffer.block

/-- The buffers of one memory kind, by outlet. -/
def buffersOf (schedule : Schedule) (kind : MemoryKind) : List Buffer :=
  schedule.buffers.values.filter fun buffer => buffer.kind = kind

/-- Raise the mark of a buffer's kind to the end of the buffer. -/
def raiseHighWater (marks : PerKind Nat) (buffer : Buffer) : Checked (PerKind Nat) := do
  return marks.set buffer.kind (max (← buffer.block.stop) (marks.get buffer.kind))

/-- Compute the high-water marks anew from the buffers. -/
def withHighWater (schedule : Schedule) : Checked Schedule := do
  let marks ← schedule.buffers.values.foldlM raiseHighWater (.tabulate fun _ => 0)
  return { schedule with highWater := marks }

end Schedule

end TensorCompiler
