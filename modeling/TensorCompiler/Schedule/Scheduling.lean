import TensorCompiler.Graph.Order
import TensorCompiler.Journal
import TensorCompiler.Memory.Allocator
import TensorCompiler.Schedule.Basic

namespace TensorCompiler
namespace Scheduling

/-!
# Scheduling a graph

The nodes run in dependency order.  When a node runs, each of its results gets
a buffer; afterwards each of its operands has one reader less, and a buffer
whose last reader has run goes back to its allocator.  A result that nobody
reads goes back at once.

Some buffers are pinned and never go back: those of a persistent memory kind,
those whose outlet forbids reuse, and those that a declared output reads.
Only nodes that take part in the schedule count as readers.
-/

/-- The state of a schedule in the making. -/
structure Progress where
  allocators : Allocators
  /-- For every value made so far, the number of its readers yet to run. -/
  pending : OutletMap Nat
  buffers : OutletMap Buffer
  journal : Journal

/-- A step of scheduling. -/
abbrev Activity := EStateM Failure Progress

/-- The readers of a wire that take part in a schedule. -/
def scheduledReaders (scheduled : List Nat) (wire : Wire) : List Inlet :=
  wire.readers.filter fun reader => scheduled.contains reader.node

/-- Whether the buffer of a wire has to stay. -/
def isPinned (g : Graph) (scheduled : List Nat) (wire : Wire) : Bool :=
  wire.memory.isPersistent || wire.noReuse ||
    (scheduledReaders scheduled wire).any fun reader => g.op? reader.node = some .output

/-- Give the value at an outlet a buffer. -/
def reserve (g : Graph) (scheduled : List Nat) (step final : Nat) (outlet : Outlet) :
    Activity Unit := do
  let wire ← g.wire outlet
  let node ← g.node outlet.node
  let progress ← get
  match progress.allocators.get wire.memory with
  | none => refuse (.noAllocator wire.memory node.name)
  | some allocator =>
    match ← allocator.allocate wire.type with
    | none =>
      refuse (.outOfMemory wire.memory node.name (← allocator.sizeOf wire.type)
        (allocator.capacity.getD Word.largest))
    | some (block, allocator) =>
      let pinned := isPinned g scheduled wire
      set { progress with
        allocators := progress.allocators.set wire.memory (some allocator)
        pending := progress.pending.insert outlet (scheduledReaders scheduled wire).length
        buffers := progress.buffers.insert outlet
          { outlet := outlet, kind := wire.memory, block := block, first := step,
            last := if pinned then final else step, pinned := pinned }
        journal := progress.journal.push (.allocated node.name wire.memory block pinned) }

/-- Return a buffer to its allocator, unless it is pinned. -/
def reclaim (outlet : Outlet) : Activity Unit := do
  let progress ← get
  match progress.buffers.get? outlet with
  | none => refuse .badNode
  | some buffer =>
    if buffer.pinned then return ()
    else match progress.allocators.get buffer.kind with
      | none => return ()
      | some allocator =>
        let allocator ← allocator.release buffer.block
        set { progress with allocators := progress.allocators.set buffer.kind (some allocator) }

/-- A buffer that is still needed at the given step. -/
def extendTo (step : Nat) (buffer : Buffer) : Buffer :=
  if buffer.pinned then buffer else { buffer with last := step }

/-- Note that one reader of the value at an outlet has run. -/
def finishRead (step : Nat) (outlet : Outlet) : Activity Unit := do
  let progress ← get
  match progress.pending.get? outlet with
  | none => refuse .badNode
  | some count =>
    let remaining ← Word.sub count 1
    set { progress with
      pending := progress.pending.insert outlet remaining
      buffers := match progress.buffers.get? outlet with
        | some buffer => progress.buffers.insert outlet (extendTo step buffer)
        | none => progress.buffers }
    if remaining = 0 then reclaim outlet

/-- Return the buffer of a value that has no readers. -/
def reclaimUnread (outlet : Outlet) : Activity Unit := do
  if (← get).pending.get? outlet = some 0 then reclaim outlet

/-- The outlets of a node. -/
def outletsOf (id : Nat) (node : Node) : List Outlet :=
  (List.range node.outputs.length).map (Outlet.mk id)

/-- Run one node. -/
def runNode (g : Graph) (scheduled : List Nat) (final step id : Nat) : Activity Unit := do
  let node ← g.node id
  (outletsOf id node).forM (reserve g scheduled step final)
  node.producers.forM (finishRead step)
  (outletsOf id node).forM reclaimUnread

/-- Run nodes in order, from the given step on. -/
def runNodes (g : Graph) (scheduled : List Nat) (final : Nat) :
    (step : Nat) → (ids : List Nat) → Activity Unit
  | _, [] => return ()
  | step, id :: rest => do
    runNode g scheduled final step id
    runNodes g scheduled final (step + 1) rest

/-- The events that report how much of each memory is used. -/
def usageEvents (highWater peakLive : PerKind Nat) : List Event :=
  (MemoryKind.all.filter fun kind => 0 < highWater.get kind).map fun kind =>
    .memoryUsed kind (highWater.get kind) (peakLive.get kind)

/-- The schedule that a finished run stands for. -/
def Progress.schedule (progress : Progress) (sequence : List Nat) : Schedule where
  sequence := sequence
  buffers := progress.buffers
  highWater := .tabulate fun kind => (progress.allocators.get kind).elim 0 Allocator.highWater
  peakLive := .tabulate fun kind => (progress.allocators.get kind).elim 0 Allocator.peakLive

end Scheduling

open Scheduling in
/-- Schedule a graph: order its nodes and give every value a buffer. -/
def Graph.schedule (g : Graph) (allocators : Allocators) : Recorded Schedule :=
  fun journal =>
    if g.outputs.isEmpty then .error (.refused .emptyGraph) journal
    else
      let sequence := g.postorder
      match Word.sub sequence.length 1 with
      | .error failure => .error failure journal
      | .ok final =>
        match runNodes g sequence final 0 sequence ⟨allocators, .empty, .empty, journal⟩ with
        | .error failure progress => .error failure progress.journal
        | .ok () progress =>
          let schedule := progress.schedule sequence
          .ok schedule
            (progress.journal ++ (usageEvents schedule.highWater schedule.peakLive).toArray)

end TensorCompiler
