import TensorCompiler.Proofs.Compilation.Layout
import TensorCompiler.Proofs.Schedule.Execution

namespace TensorCompiler
namespace Schedule

/-!
# Exact lifetimes

A schedule says of every value when it is made and when it is needed last.  For
schedules made by the scheduler this is exact: it can be read off the links of the
graph and the order of the nodes.  Together with the placement it leaves nothing
for the check of a schedule to find.
-/

open Scheduling

/-- A buffer has to stay: its memory is persistent, its outlet forbids reuse, or
a declared output among the scheduled nodes reads it. -/
def HasToStay (g : Graph) (sequence : List Nat) (outlet : Outlet) (wire : Wire) : Prop :=
  wire.memory.isPersistent = true ∨ wire.noReuse = true ∨
    ∃ inlet, inlet.node ∈ sequence ∧ g.op? inlet.node = some .output ∧ g.Reads inlet outlet

/-- The buffers of a schedule are those of its values, with their exact
lifetimes. -/
structure Exact (g : Graph) (schedule : Schedule) : Prop where
  order : schedule.sequence = g.postorder
  distinct : schedule.sequence.Nodup
  /-- No outlet has two entries. -/
  single : (schedule.buffers.entries.map Prod.fst).Nodup
  /-- The outlets of the scheduled nodes have one, and no others do. -/
  keys : ∀ outlet, outlet ∈ schedule.buffers.entries.map Prod.fst ↔
    outlet.node ∈ schedule.sequence ∧ ∃ wire, g.wire outlet = .ok wire
  own : ∀ outlet buffer, (outlet, buffer) ∈ schedule.buffers.entries → buffer.outlet = outlet
  /-- A lifetime starts with the node that makes the value. -/
  first : ∀ outlet buffer, (outlet, buffer) ∈ schedule.buffers.entries →
    schedule.sequence[buffer.first]? = some outlet.node
  pinned : ∀ outlet buffer, (outlet, buffer) ∈ schedule.buffers.entries →
    ∃ wire, g.wire outlet = .ok wire ∧ buffer.kind = wire.memory ∧
      (buffer.pinned = true ↔ HasToStay g schedule.sequence outlet wire)
  /-- It ends with the program if the buffer is pinned, and otherwise with the
  last node that reads the value. -/
  last : ∀ outlet buffer, (outlet, buffer) ∈ schedule.buffers.entries →
    if buffer.pinned then buffer.last + 1 = schedule.sequence.length
    else IsLastUse g schedule.sequence outlet buffer.first buffer.last
  /-- Buffers of one kind that are needed at the same step share no byte. -/
  apart : ∀ outlet buffer other otherBuffer, (outlet, buffer) ∈ schedule.buffers.entries →
    (other, otherBuffer) ∈ schedule.buffers.entries → outlet ≠ other →
    buffer.kind = otherBuffer.kind → buffer.first ≤ otherBuffer.last →
    otherBuffer.first ≤ buffer.last →
      ∀ address, ¬ (buffer.block.Covers address ∧ otherBuffer.block.Covers address)

variable {g : Graph} {schedule : Schedule}

theorem Sound.exact (sound : schedule.Sound g) (linked : g.Linked)
    (order : schedule.sequence = g.postorder) : schedule.Exact g where
  order := order
  distinct := sound.distinct
  single := by
    refine List.pairwise_map.mpr (schedule.buffers.increasing.imp ?_)
    intro first second less same
    exact Outlet.lt_irrefl second.1 (same ▸ less)
  keys := by
    intro outlet
    rw [← sound.keys outlet, List.mem_map]
    constructor
    · rintro ⟨⟨key, buffer⟩, member, rfl⟩
      exact ⟨buffer, OutletMap.mem_entries.mp member⟩
    · rintro ⟨buffer, stored⟩
      exact ⟨(outlet, buffer), OutletMap.mem_entries.mpr stored, rfl⟩
  own outlet buffer member := (sound.entry outlet buffer (OutletMap.mem_entries.mp member)).own
  first outlet buffer member := (sound.entry outlet buffer (OutletMap.mem_entries.mp member)).first
  pinned := by
    intro outlet buffer member
    rcases (sound.entry outlet buffer (OutletMap.mem_entries.mp member)).wire with
      ⟨wire, wired, kind, pinned⟩
    refine ⟨wire, wired, kind, ?_⟩
    rw [pinned]
    exact isPinned_iff linked wired
  last := by
    intro outlet buffer member
    have stored := OutletMap.mem_entries.mp member
    have describes := sound.entry outlet buffer stored
    split
    · next pinned =>
      have inside := (List.getElem?_eq_some_iff.mp describes.first).1
      have final := describes.lastPinned pinned
      rw [Schedule.final] at final
      omega
    · next free => exact describes.lastUnpinned (Bool.eq_false_iff.mpr free)
  apart := by
    intro outlet buffer other otherBuffer member otherMember different sameKind starts otherStarts
      address both
    exact sound.apart outlet other buffer otherBuffer different (OutletMap.mem_entries.mp member)
      (OutletMap.mem_entries.mp otherMember) ⟨sameKind, ⟨starts, otherStarts⟩, address, both⟩

/-- The scheduler records lifetimes exactly and places no two buffers on the same
bytes while both are needed.  Hence the check accepts the schedule and whatever
packing makes of it, and compiling for a target with these allocators never ends
with the report of an overlap, unless a rule of the target's own makes one up; the
rules of both built-in targets do not. -/
theorem exact_of_schedule {allocators : Allocators} {journal after : Journal}
    (linked : g.Linked)
    (reached : ∀ kind allocator, allocators.get kind = some allocator → allocator.Reached)
    (done : g.schedule allocators journal = .ok schedule after) :
    schedule.Exact g ∧ schedule.verify g = .ok () ∧
      (∀ packed, schedule.Packed packed → packed.verify g = .ok ()) ∧
      (∀ target : Target, target.allocators = allocators → target.IsQuiet →
        ∀ options bench first second kind later, compile target options bench ≠
          .error (.refused (.overlappingBuffers first second kind)) later) ∧
      Target.cpu.IsQuiet ∧
      ∀ scratchpad quantization, (Target.accelerated scratchpad quantization).IsQuiet := by
  have sound := Graph.schedule_sound reached done
  rcases Graph.schedule_eq_ok done with ⟨_, order, _⟩
  refine ⟨sound.exact linked order, sound.verify_eq_ok g, ?_, ?_, Target.quiet_cpu,
    Target.quiet_accelerated⟩
  · intro packed packing
    exact (sound.packed packing).1.verify_eq_ok g
  · rintro target rfl quiet options bench first second kind later failed
    exact quiet_compile quiet reached bench _ later failed ⟨first, second, kind, rfl⟩

/-- The schedule of the small graph on a host, and every compilation for it. -/
theorem exact_rectified :
    ∃ schedule journal, Graph.rectified.schedule Target.cpu.allocators #[] = .ok schedule journal ∧
      schedule.sequence = [0, 1, 2, 3, 4] ∧ schedule.Exact Graph.rectified ∧
      schedule.verify Graph.rectified = .ok () ∧
      ∀ options bench first second kind later, compile .cpu options bench ≠
        .error (.refused (.overlappingBuffers first second kind)) later := by
  have sequence : (match Graph.rectified.schedule Target.cpu.allocators #[] with
      | .ok schedule _ => schedule.sequence
      | .error _ _ => []) = [0, 1, 2, 3, 4] := by decide +kernel
  cases done : Graph.rectified.schedule Target.cpu.allocators #[] with
  | error failure journal =>
      rw [done] at sequence
      cases sequence
  | ok schedule journal =>
      rw [done] at sequence
      rcases exact_of_schedule Graph.made_rectified.valid.linked reached_cpu done with
        ⟨isExact, verified, _, quiet, cpuQuiet, _⟩
      exact ⟨schedule, journal, rfl, sequence, isExact, verified, quiet Target.cpu rfl cpuQuiet⟩

end Schedule
end TensorCompiler
