import TensorCompiler.Proofs.Memory.Ledger
import TensorCompiler.Proofs.Schedule.Provision

namespace TensorCompiler

/-!
# Counters and marks

An allocator counts the bytes that it has given out, remembers the most that it ever
counted, and marks the highest address that a block of it ended at.  This module says what
the activities of a scheduling run do to these figures.  No block is moved once it is given
out, so after a run each mark is where it was before it, or at the end of the highest buffer
of its memory if that is higher.  It lies within the capacity if the memory was only ever
given back what it had given out.

The marks do not depend on the order of the activities.  What is to be shown of them is
therefore put as a property that every single activity keeps.
-/

/-! ## Counters -/

/-- Each allocator is as new, and its memory has at most a word of bytes. -/
def Allocators.Unused (allocators : Allocators) : Prop :=
  ∀ kind allocator, allocators.get kind = some allocator →
    ∃ owner capacity rule, allocator = .new owner capacity rule ∧
      ∀ size, capacity = some size → size ≤ Word.largest

/-- Each allocator is new or has been in honest use. -/
def Allocators.Honest (allocators : Allocators) : Prop :=
  ∀ kind allocator, allocators.get kind = some allocator → ∃ lent, allocator.Honest lent

theorem Allocators.Honest.reached {allocators : Allocators} (honest : allocators.Honest) :
    ∀ kind allocator, allocators.get kind = some allocator → allocator.Reached := by
  intro kind allocator present
  rcases honest kind allocator present with ⟨lent, use⟩
  exact use.reached

theorem Allocators.Unused.honest {allocators : Allocators} (unused : allocators.Unused) :
    allocators.Honest := by
  intro kind allocator present
  rcases unused kind allocator present with ⟨owner, capacity, rule, rfl, fits⟩
  exact ⟨[], .new owner capacity rule fits⟩

/-- What the allocator of a memory counts, or zero if the memory has none. -/
def Allocators.counter (allocators : Allocators) (count : Allocator → Nat) (kind : MemoryKind) :
    Nat :=
  (allocators.get kind).elim 0 count

/-- Allocators that have not been used count nothing. -/
theorem Allocators.Unused.counter_eq_zero {allocators : Allocators} (unused : allocators.Unused)
    {count : Allocator → Nat} (zero : ∀ owner capacity rule, count (.new owner capacity rule) = 0)
    (kind : MemoryKind) : allocators.counter count kind = 0 := by
  rw [counter]
  cases present : allocators.get kind with
  | none => rfl
  | some allocator =>
      rcases unused kind allocator present with ⟨owner, capacity, rule, rfl, _⟩
      exact zero owner capacity rule

namespace Scheduling

/-- What the allocators count at present. -/
def Progress.counter (progress : Progress) : (Allocator → Nat) → MemoryKind → Nat :=
  progress.allocators.counter

theorem Progress.counter_of_get {progress : Progress} {kind : MemoryKind} {allocator : Allocator}
    (present : progress.allocators.get kind = some allocator) (count : Allocator → Nat) :
    progress.counter count kind = count allocator := by
  rw [counter, Allocators.counter, present, Option.elim_some]

/-- A change of one allocator shows in the counters of its memory only. -/
theorem Progress.counter_of_set {progress after : Progress} {kind : MemoryKind} {rest : Allocator}
    (allocators : after.allocators = progress.allocators.set kind (some rest))
    (count : Allocator → Nat) (other : MemoryKind) :
    after.counter count other =
      if other = kind then count rest else progress.counter count other := by
  rw [counter, counter, Allocators.counter, Allocators.counter, allocators, PerKind.get_set]
  split
  · rfl
  · rfl

/-! ## Invariants of a run -/

section

variable {g : Graph} {scheduled sequence ids : List Nat} {final step : Nat}
  {progress after : Progress}

/-- A property of the progress that reserving a fresh outlet, noting a read and reclaiming
keep. -/
structure Kept (g : Graph) (scheduled : List Nat) (final : Nat) (property : Progress → Prop) :
    Prop where
  reserve : ∀ {step outlet progress after}, property progress →
    progress.buffers.get? outlet = none →
    Scheduling.reserve g scheduled step final outlet progress = .ok () after → property after
  afterRead : ∀ {progress} step outlet remaining, property progress →
    property (Scheduling.afterRead step outlet remaining progress)
  reclaim : ∀ {outlet progress after}, property progress →
    Scheduling.reclaim outlet progress = .ok () after → property after

variable {property : Progress → Prop}

theorem Kept.reserveAll {outlets : List Outlet} (kept : Kept g scheduled final property)
    (holds : property progress) (distinct : outlets.Nodup)
    (fresh : ∀ outlet ∈ outlets, progress.buffers.get? outlet = none)
    (done : outlets.forM (Scheduling.reserve g scheduled step final) progress = .ok () after) :
    property after := by
  induction outlets generalizing progress with
  | nil =>
      rw [Stateful.forM_nil_eq_ok] at done
      exact done ▸ holds
  | cons head rest inductionHypothesis =>
      rcases List.nodup_cons.mp distinct with ⟨headFresh, restDistinct⟩
      rcases Stateful.forM_cons_eq_ok.mp done with ⟨between, first, later⟩
      refine inductionHypothesis (kept.reserve holds (fresh head List.mem_cons_self) first)
        restDistinct ?_ later
      intro outlet member
      rcases reserve_eq_ok first with ⟨_, _, _, _, _, _, _, _, _, buffers⟩
      have different : outlet ≠ head := fun same => headFresh (same ▸ member)
      rw [buffers, OutletMap.get?_insert_of_ne _ _ different]
      exact fresh outlet (List.mem_cons_of_mem _ member)

theorem Kept.finishRead {outlet : Outlet} (kept : Kept g scheduled final property)
    (holds : property progress) (done : Scheduling.finishRead step outlet progress = .ok () after) :
    property after := by
  rcases finishRead_eq_ok done with ⟨remaining, _, ⟨_, reclaimed⟩ | ⟨_, rfl⟩⟩
  · exact kept.reclaim (kept.afterRead step outlet remaining holds) reclaimed
  · exact kept.afterRead step outlet remaining holds

theorem Kept.reclaimUnread {outlet : Outlet} (kept : Kept g scheduled final property)
    (holds : property progress) (done : Scheduling.reclaimUnread outlet progress = .ok () after) :
    property after := by
  rcases reclaimUnread_eq_ok done with ⟨_, reclaimed⟩ | rfl
  · exact kept.reclaim holds reclaimed
  · exact holds

/-- A run through nodes that have not run before keeps what its activities keep. -/
theorem Kept.run (kept : Kept g scheduled final property) (holds : property progress)
    (records : Records g scheduled final sequence progress) (distinct : (sequence ++ ids).Nodup)
    (done : runNodes g scheduled final sequence.length ids progress = .ok () after) :
    property after := by
  induction ids generalizing sequence progress with
  | nil =>
      simp only [runNodes, Stateful.pure_eq_ok] at done
      exact done.2 ▸ holds
  | cons id rest inductionHypothesis =>
      simp only [runNodes, Stateful.bind_eq_ok] at done
      rcases done with ⟨_, between, first, later⟩
      rcases runNode_tables first with ⟨node, found, tables⟩
      have new : id ∉ sequence := fun member =>
        List.disjoint_of_nodup_append distinct member List.mem_cons_self
      rcases runNode_eq_ok first with
        ⟨same, reserved, read, sameFound, reserving, reading, reclaiming⟩
      have reservedHolds := kept.reserveAll holds (outletsOf_nodup id same)
        (fun outlet own => records.absent new ((mem_outletsOf sameFound).mp own).1) reserving
      have readHolds := Stateful.forM_keeps (fun _ _ _ => kept.finishRead) reservedHolds reading
      have betweenHolds :=
        Stateful.forM_keeps (fun _ _ _ => kept.reclaimUnread) readHolds reclaiming
      rw [List.append_cons] at distinct
      apply inductionHypothesis betweenHolds (records.node new found tables) distinct
      rw [List.length_append, List.length_singleton]
      exact later

/-! ## Marks -/

/-- A buffer keeps everything but its last step. -/
theorem kept_buffers (start : Progress) : Kept g scheduled final fun progress =>
    ∀ outlet buffer, start.buffers.get? outlet = some buffer →
      ∃ last, progress.buffers.get? outlet = some { buffer with last := last } where
  reserve := by
    intro step outlet progress after holds fresh done other buffer stored
    rcases reserve_eq_ok done with ⟨_, _, _, _, _, _, _, _, _, buffers⟩
    rcases holds other buffer stored with ⟨last, now⟩
    have different : other ≠ outlet := by
      rintro rfl
      rw [fresh] at now
      cases now
    exact ⟨last, by rw [buffers, OutletMap.get?_insert_of_ne _ _ different, now]⟩
  afterRead := by
    intro progress step outlet remaining holds other buffer stored
    rcases holds other buffer stored with ⟨last, now⟩
    rcases exists_afterRead remaining now with ⟨later, extended⟩
    exact ⟨later, extended⟩
  reclaim := by
    intro outlet progress after holds done
    rcases reclaim_eq_ok done with ⟨_, _, _, buffers, _⟩
    rw [buffers]
    exact holds

/-- The marks of the memories are what they were at the start, or the ends of the highest
buffers if these are higher. -/
structure Marked (floor : MemoryKind → Nat) (progress : Progress) : Prop where
  raised : ∀ kind, floor kind ≤ progress.counter Allocator.highWater kind
  bound : ∀ outlet buffer, progress.buffers.get? outlet = some buffer →
    buffer.block.offset + buffer.block.size ≤ progress.counter Allocator.highWater buffer.kind
  attained : ∀ kind, progress.counter Allocator.highWater kind = floor kind ∨
    ∃ outlet buffer, progress.buffers.get? outlet = some buffer ∧ buffer.kind = kind ∧
      buffer.block.offset + buffer.block.size = progress.counter Allocator.highWater kind

section

variable {floor : MemoryKind → Nat} {outlet : Outlet}

theorem Marked.reserve (marked : Marked floor progress)
    (fresh : progress.buffers.get? outlet = none)
    (done : Scheduling.reserve g scheduled step final outlet progress = .ok () after) :
    Marked floor after := by
  rcases reserve_eq_ok done with
    ⟨wire, allocator, block, rest, _, present, allocated, allocators, _, buffers⟩
  have nowStored : after.buffers.get? outlet =
      some (newBuffer g scheduled step final outlet wire block) := by
    rw [buffers, OutletMap.get?_insert_self]
  have stillStored : ∀ other buffer, progress.buffers.get? other = some buffer →
      after.buffers.get? other = some buffer := by
    intro other buffer stored
    have different : other ≠ outlet := by
      rintro rfl
      rw [fresh] at stored
      cases stored
    rw [buffers, OutletMap.get?_insert_of_ne _ _ different, stored]
  have raised : ∀ kind, after.counter Allocator.highWater kind =
      if kind = wire.memory then
        max (progress.counter Allocator.highWater kind) (block.offset + block.size)
      else progress.counter Allocator.highWater kind := by
    intro kind
    rw [Progress.counter_of_set allocators]
    split
    · next same =>
      rw [same, Allocator.highWater_of_allocate allocated, Progress.counter_of_get present]
    · rfl
  have higher : ∀ kind, progress.counter Allocator.highWater kind ≤
      after.counter Allocator.highWater kind := by
    intro kind
    rw [raised]
    split
    · exact Nat.le_max_left _ _
    · exact Nat.le_refl _
  refine ⟨fun kind => (marked.raised kind).trans (higher kind), ?_, ?_⟩
  · intro other buffer stored
    rw [buffers] at stored
    rcases OutletMap.get?_insert_eq_some.mp stored with ⟨_, rfl⟩ | ⟨_, before⟩
    · rw [raised]
      exact (Nat.le_max_right _ _).trans_eq (if_pos rfl).symm
    · exact (marked.bound other buffer before).trans (higher buffer.kind)
  · intro kind
    rw [raised]
    have before : progress.counter Allocator.highWater kind = floor kind ∨
        ∃ other buffer, after.buffers.get? other = some buffer ∧ buffer.kind = kind ∧
          buffer.block.offset + buffer.block.size = progress.counter Allocator.highWater kind := by
      refine (marked.attained kind).imp_right ?_
      rintro ⟨other, buffer, stored, isKind, ends⟩
      exact ⟨other, buffer, stillStored other buffer stored, isKind, ends⟩
    split
    · next same =>
      rcases Nat.le_total (block.offset + block.size) (progress.counter Allocator.highWater kind)
        with lower | higher
      · rw [Nat.max_eq_left lower]
        exact before
      · rw [Nat.max_eq_right higher]
        exact Or.inr ⟨outlet, _, nowStored, same.symm, rfl⟩
    · exact before

theorem Marked.afterRead (marked : Marked floor progress) (remaining : Nat) :
    Marked floor (Scheduling.afterRead step outlet remaining progress) where
  raised := marked.raised
  bound other buffer stored := by
    rcases exists_before_afterRead stored with ⟨earlier, _, before, rfl, -⟩
    exact marked.bound other earlier before
  attained kind := by
    refine (marked.attained kind).imp_right ?_
    rintro ⟨other, buffer, stored, isKind, ends⟩
    rcases exists_afterRead remaining stored with ⟨last, extended⟩
    exact ⟨other, _, extended, isKind, ends⟩

theorem Marked.reclaim (marked : Marked floor progress)
    (done : Scheduling.reclaim outlet progress = .ok () after) : Marked floor after := by
  rcases reclaim_eq_ok done with ⟨buffer, stored, _, buffers, outcome⟩
  have same : ∀ kind, after.counter Allocator.highWater kind =
      progress.counter Allocator.highWater kind := by
    intro kind
    rcases outcome with ⟨allocators, _⟩ | ⟨_, allocator, rest, present, released, allocators⟩
    · rw [Progress.counter, Progress.counter, allocators]
    · rw [Progress.counter_of_set allocators]
      split
      · next isKind =>
        rw [isKind, Allocator.highWater_of_release released, Progress.counter_of_get present]
      · rfl
  constructor
  · simpa only [same] using marked.raised
  · simpa only [buffers, same] using marked.bound
  · simpa only [buffers, same] using marked.attained

theorem kept_marked (floor : MemoryKind → Nat) : Kept g scheduled final (Marked floor) where
  reserve marked fresh done := marked.reserve fresh done
  afterRead _ _ remaining marked := marked.afterRead remaining
  reclaim marked done := marked.reclaim done

theorem marked_start (allocators : Allocators) (journal : Journal) :
    Marked (allocators.counter Allocator.highWater) ⟨allocators, .empty, .empty, journal⟩ where
  raised kind := Nat.le_refl _
  bound outlet buffer stored := by
    rw [OutletMap.get?_empty] at stored
    cases stored
  attained kind := Or.inl rfl

end

/-! ## Counts and capacities -/

theorem kept_reached : Kept g scheduled final fun progress =>
    ∀ kind allocator, progress.allocators.get kind = some allocator → allocator.Reached where
  reserve := by
    intro step outlet progress after reached _ done
    rcases reserve_eq_ok done with ⟨wire, allocator, block, rest, _, present, given, exchanged, _⟩
    exact forall_allocator_set reached (.allocate (reached _ _ present) given) exchanged
  afterRead _ _ _ reached := reached
  reclaim := by
    intro outlet progress after reached done
    rcases reclaim_eq_ok done with
      ⟨buffer, _, _, _, ⟨same, _⟩ | ⟨_, _, _, present, released, exchanged⟩⟩
    · exact same ▸ reached
    · exact forall_allocator_set reached (.release (reached _ _ present) released) exchanged

/-- A memory of the given capacity whose free addresses and mark lie inside. -/
structure Gauged (limit : Option Nat) (allocator : Allocator) : Prop where
  wellFormed : allocator.space.WellFormed
  capacity : allocator.capacity = limit
  inside : ∀ address, allocator.space.Free address → address < FreeSpace.extent limit
  marked : allocator.highWater ≤ FreeSpace.extent limit

section

variable {limit : Option Nat} {allocator rest : Allocator} {block : Block}

theorem gauged_new {kind : MemoryKind} {rule : SizeRule}
    (fits : ∀ size, limit = some size → size ≤ Word.largest) :
    Gauged limit (.new kind limit rule) where
  wellFormed := FreeSpace.wellFormed_ofCapacity fits
  capacity := rfl
  inside _ := FreeSpace.free_ofCapacity.mp
  marked := Nat.zero_le _

theorem Gauged.allocate {type : TensorType} (gauged : Gauged limit allocator)
    (given : allocator.allocate type = .ok (some (block, rest))) : Gauged limit rest := by
  rcases Allocator.space_of_allocate given with ⟨size, _, found⟩
  rcases FreeSpace.allocate_eq_some gauged.wellFormed found with ⟨wellFormed, _, _, _, isFree⟩
  refine ⟨wellFormed, (FreeSpace.marks_of_allocate found).1.trans gauged.capacity, ?_, ?_⟩
  · intro address free
    exact gauged.inside address ((isFree address).mp free).1
  · rw [Allocator.highWater_of_allocate given]
    exact Nat.max_le.mpr ⟨gauged.marked,
      FreeSpace.stop_le_of_allocate gauged.wellFormed gauged.inside found⟩

/-- A block may come back from below the mark. -/
theorem Gauged.release (gauged : Gauged limit allocator)
    (below : block.offset + block.size ≤ allocator.highWater)
    (done : allocator.release block = .ok rest) : Gauged limit rest := by
  have released := Allocator.space_of_release done
  rcases FreeSpace.release_eq_ok gauged.wellFormed released with ⟨wellFormed, isFree, _⟩
  have marked : rest.highWater ≤ FreeSpace.extent limit :=
    (Allocator.highWater_of_release done).trans_le gauged.marked
  refine ⟨wellFormed, (FreeSpace.marks_of_release released).1.trans gauged.capacity, ?_, marked⟩
  intro address free
  rcases (isFree address).mp free with wasFree | covers
  · exact gauged.inside address wasFree
  · exact Nat.lt_of_lt_of_le covers.2 (Nat.le_trans below gauged.marked)

/-- Honest use stays within the capacity, and all that is lent lies below the mark. -/
theorem gauged_of_honest {lent : List Block} (honest : allocator.Honest lent) :
    Gauged allocator.capacity allocator ∧
      ∀ block ∈ lent, block.offset + block.size ≤ allocator.highWater := by
  induction honest with
  | new kind capacity rule fits => exact ⟨gauged_new fits, List.forall_mem_nil _⟩
  | allocate _ given inductionHypothesis =>
      rcases inductionHypothesis with ⟨gauged, below⟩
      have restGauged := gauged.allocate given
      rw [restGauged.capacity, Allocator.highWater_of_allocate given]
      refine ⟨restGauged, List.forall_mem_cons.mpr ⟨Nat.le_max_right _ _, ?_⟩⟩
      exact fun other member => (below other member).trans (Nat.le_max_left _ _)
  | release _ outstanding done inductionHypothesis =>
      rcases inductionHypothesis with ⟨gauged, below⟩
      have restGauged := gauged.release (below _ outstanding) done
      rw [restGauged.capacity, Allocator.highWater_of_release done]
      exact ⟨restGauged, fun other member => below other (List.mem_of_mem_erase member)⟩

end

/-- Every memory keeps to its capacity. -/
def Gauges (capacities : PerKind (Option Nat)) (progress : Progress) : Prop :=
  ∀ kind allocator, progress.allocators.get kind = some allocator →
    Gauged (capacities.get kind) allocator

/-- The buffers lie below the marks, so reclaiming one keeps its memory to the capacity. -/
theorem kept_gauges (floor : MemoryKind → Nat) (capacities : PerKind (Option Nat)) :
    Kept g scheduled final fun progress => Marked floor progress ∧ Gauges capacities progress where
  reserve := by
    rintro step outlet progress after ⟨marked, gauges⟩ fresh done
    refine ⟨marked.reserve fresh done, ?_⟩
    rcases reserve_eq_ok done with ⟨wire, allocator, block, rest, _, present, given, exchanged, _⟩
    exact forall_allocator_set gauges ((gauges _ _ present).allocate given) exchanged
  afterRead := by
    rintro progress step outlet remaining ⟨marked, gauges⟩
    exact ⟨marked.afterRead remaining, gauges⟩
  reclaim := by
    rintro outlet progress after ⟨marked, gauges⟩ done
    refine ⟨marked.reclaim done, ?_⟩
    rcases reclaim_eq_ok done with
      ⟨buffer, stored, _, _, ⟨same, _⟩ | ⟨_, _, _, present, released, exchanged⟩⟩
    · rwa [Gauges, same]
    · have below := marked.bound outlet buffer stored
      rw [Progress.counter_of_get present] at below
      exact forall_allocator_set gauges ((gauges _ _ present).release below released) exchanged

theorem gauges_start {allocators : Allocators} (honest : allocators.Honest) (journal : Journal) :
    Gauges allocators.capacities ⟨allocators, .empty, .empty, journal⟩ := by
  intro kind allocator present
  rcases honest kind allocator present with ⟨lent, use⟩
  have same : allocators.capacities.get kind = allocator.capacity := by
    rw [Allocators.capacities, PerKind.get_tabulate, present]
    rfl
  rw [same]
  exact (gauged_of_honest use).1

end

end Scheduling
end TensorCompiler
