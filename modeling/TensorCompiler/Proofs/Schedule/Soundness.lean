import TensorCompiler.Proofs.Schedule.Conflicts
import TensorCompiler.Proofs.Schedule.Placement

namespace TensorCompiler

/-!
# Sound schedules

A schedule is sound for a graph if its table of buffers is an exact record of
its sequence and no two buffers clash.  The scheduler returns only sound
schedules, whatever the graph and the allocators; moving buffers about without
a clash keeps a schedule sound; and the check accepts every sound schedule.
-/

open Scheduling

/-- When the two ends of every link agree, the reasons to pin a buffer can be
read off the readers. -/
theorem Scheduling.isPinned_iff {g : Graph} (linked : g.Linked) {scheduled : List Nat}
    {outlet : Outlet} {wire : Wire} (wired : g.wire outlet = .ok wire) :
    isPinned g scheduled wire = true ↔
      wire.memory.isPersistent = true ∨ wire.noReuse = true ∨
        ∃ inlet, inlet.node ∈ scheduled ∧ g.op? inlet.node = some .output ∧
          g.Reads inlet outlet := by
  simp only [isPinned, scheduledReaders, Bool.or_eq_true, or_assoc, List.any_eq_true,
    List.mem_filter, List.contains_iff_mem, decide_eq_true_eq, linked.mem_readers wired]
  refine or_congr_right (or_congr_right ?_)
  constructor
  · rintro ⟨inlet, ⟨reads, inSchedule⟩, isOutput⟩
    exact ⟨inlet, inSchedule, isOutput, reads⟩
  · rintro ⟨inlet, inSchedule, isOutput, reads⟩
    exact ⟨inlet, ⟨reads, inSchedule⟩, isOutput⟩

namespace Schedule

/-- The last step of a schedule. -/
def final (schedule : Schedule) : Nat :=
  schedule.sequence.length - 1

/-- The buffers record the sequence and do not clash. -/
structure Sound (g : Graph) (schedule : Schedule) : Prop where
  distinct : schedule.sequence.Nodup
  keys : ∀ outlet, (∃ buffer, schedule.buffers.get? outlet = some buffer) ↔
    outlet.node ∈ schedule.sequence ∧ ∃ wire, g.wire outlet = .ok wire
  entry : ∀ outlet buffer, schedule.buffers.get? outlet = some buffer →
    Describes g schedule.sequence schedule.final schedule.sequence outlet buffer
  served : ∀ outlet position, ReadAt g schedule.sequence outlet position →
    ∃ buffer, schedule.buffers.get? outlet = some buffer ∧ buffer.first ≤ position
  fits : ∀ outlet buffer, schedule.buffers.get? outlet = some buffer → buffer.block.Fits
  apart : ∀ outlet other buffer otherBuffer, outlet ≠ other →
    schedule.buffers.get? outlet = some buffer →
    schedule.buffers.get? other = some otherBuffer → ¬ buffer.Clashes otherBuffer

namespace Sound

variable {g : Graph} {schedule : Schedule} {outlet other : Outlet} {buffer otherBuffer : Buffer}

theorem first_le_final (sound : schedule.Sound g)
    (stored : schedule.buffers.get? outlet = some buffer) : buffer.first ≤ schedule.final := by
  have inside := (List.getElem?_eq_some_iff.mp (sound.entry outlet buffer stored).first).1
  exact Nat.le_sub_one_of_lt inside

theorem first_le_last (sound : schedule.Sound g)
    (stored : schedule.buffers.get? outlet = some buffer) : buffer.first ≤ buffer.last := by
  have describes := sound.entry outlet buffer stored
  cases pinned : buffer.pinned with
  | true =>
      rw [describes.lastPinned pinned]
      exact sound.first_le_final stored
  | false =>
      rcases (describes.lastUnpinned pinned).2 with read | ⟨last, _⟩
      · rcases sound.served outlet buffer.last read with ⟨again, found, bound⟩
        rcases Option.some.inj (stored.symm.trans found) with rfl
        exact bound
      · exact Nat.le_of_eq last.symm

/-- A pinned buffer lives to the end of the program, so two of them are
needed together at the final step. -/
theorem pinned_apart (sound : schedule.Sound g) (different : outlet ≠ other)
    (stored : schedule.buffers.get? outlet = some buffer)
    (otherStored : schedule.buffers.get? other = some otherBuffer)
    (pinned : buffer.pinned = true) (otherPinned : otherBuffer.pinned = true)
    (sameKind : buffer.kind = otherBuffer.kind) : ¬ buffer.block.Meets otherBuffer.block := by
  intro meets
  refine sound.apart outlet other buffer otherBuffer different stored otherStored
    ⟨sameKind, ⟨?_, ?_⟩, meets⟩
  · rw [(sound.entry other otherBuffer otherStored).lastPinned otherPinned]
    exact sound.first_le_final stored
  · rw [(sound.entry outlet buffer stored).lastPinned pinned]
    exact sound.first_le_final otherStored

/-- The check accepts a sound schedule. -/
theorem verify_eq_ok (sound : schedule.Sound g) (shown : Graph) :
    verify shown schedule = .ok () := by
  have quiet : findConflict schedule.buffers.values = .ok none := by
    refine (findConflict_eq_none ?_ ?_).mpr (OutletMap.pairwise_values sound.apart)
    · intro buffer member
      rcases OutletMap.mem_values.mp member with ⟨outlet, stored⟩
      exact sound.fits outlet buffer stored
    · intro buffer member
      rcases OutletMap.mem_values.mp member with ⟨outlet, stored⟩
      exact sound.first_le_last stored
  rw [verify, quiet]
  rfl

end Sound

end Schedule

/-! ## Schedules made by the scheduler -/

/-- What a successful scheduling run was. -/
theorem Graph.exists_progress_of_schedule {g : Graph} {allocators : Allocators}
    {journal after : Journal} {schedule : Schedule}
    (done : g.schedule allocators journal = .ok schedule after) :
    ∃ progress, schedule = progress.schedule g.postorder ∧
      runNodes g g.postorder schedule.final 0 g.postorder ⟨allocators, .empty, .empty, journal⟩ =
        .ok () progress := by
  unfold Graph.schedule at done
  split at done
  · cases done
  · simp only at done
    cases last : Word.sub g.postorder.length 1 with
    | error failure =>
        rw [last] at done
        cases done
    | ok final =>
        rw [last] at done
        have lengths := Word.sub_eq_ok.mp last
        simp only at done
        split at done
        · cases done
        · next progress finished =>
          rcases EStateM.Result.ok.inj done with ⟨rfl, rfl⟩
          refine ⟨progress, rfl, ?_⟩
          have isFinal : (progress.schedule g.postorder).final = final := by
            change g.postorder.length - 1 = final
            omega
          rw [isFinal]
          exact finished

theorem Graph.schedule_eq_ok {g : Graph} {allocators : Allocators} {journal after : Journal}
    {schedule : Schedule} (done : g.schedule allocators journal = .ok schedule after) :
    ∃ progress, schedule.sequence = g.postorder ∧ schedule.buffers = progress.buffers ∧
      runNodes g g.postorder schedule.final 0 g.postorder ⟨allocators, .empty, .empty, journal⟩ =
        .ok () progress := by
  rcases Graph.exists_progress_of_schedule done with ⟨progress, same, finished⟩
  exact ⟨progress, by rw [same]; rfl, by rw [same]; rfl, finished⟩

/-- The scheduler returns only sound schedules. -/
theorem Graph.schedule_sound {g : Graph} {allocators : Allocators} {journal after : Journal}
    {schedule : Schedule}
    (reached : ∀ kind allocator, allocators.get kind = some allocator → allocator.Reached)
    (done : g.schedule allocators journal = .ok schedule after) : schedule.Sound g := by
  rcases Graph.schedule_eq_ok done with ⟨progress, sequence, buffers, finished⟩
  have distinct : ([] ++ g.postorder).Nodup := g.postorder_nodup
  have start : Records g g.postorder schedule.final [] ⟨allocators, .empty, .empty, journal⟩ :=
    records_empty allocators journal
  have records := start.run distinct finished
  rcases (placed_start (fun _ => True) journal reached).run start distinct finished with
    ⟨held, placed⟩
  rw [List.nil_append, ← sequence] at records
  constructor
  case distinct => exact sequence ▸ distinct
  case keys =>
    rw [buffers]
    exact records.keys
  case entry =>
    rw [buffers]
    exact records.entry
  case served =>
    rw [buffers]
    exact records.served
  case fits =>
    rw [buffers]
    exact placed.fits
  case apart =>
    rw [buffers]
    rintro outlet other buffer otherBuffer different stored otherStored
      ⟨sameKind, ⟨starts, otherStarts⟩, meets⟩
    rcases placed.apart outlet other buffer otherBuffer different stored otherStored sameKind
      meets with ⟨_, ended⟩ | ⟨_, ended⟩
    · exact Nat.not_lt.mpr otherStarts ended
    · exact Nat.not_lt.mpr starts ended

end TensorCompiler
