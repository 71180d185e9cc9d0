import TensorCompiler.Proofs.Memory.Alignment
import TensorCompiler.Proofs.Schedule.Improvement

namespace TensorCompiler

/-!
# Padded buffers

A buffer is as large as the size rule of its memory says.  This is never less than its tensor
needs if the rule covers it, and a multiple of whatever the rule pads to.  A buffer also starts
at such a multiple.  While a graph is scheduled this comes from the allocators, as long as these
were only given back what they had given out.  When the buffers are placed anew it comes from
the places being the lowest ones: a buffer that could be moved down to the next multiple would
not be at the lowest place, since the buffers around it start and end at multiples.
-/

open Scheduling

/-- A buffer has the size that the rule of its memory reserves for its tensor.  That is enough
for the elements if the rule covers them, and a multiple of what the rule pads to. -/
structure Buffer.Accommodates (g : Graph) (allocators : Allocators) (buffer : Buffer) : Prop where
  reserved : ∃ allocator wire, allocators.get buffer.kind = some allocator ∧
    g.wire buffer.outlet = .ok wire ∧ allocator.sizeOf wire.type = .ok buffer.block.size
  sufficient : ∀ allocator, allocators.get buffer.kind = some allocator → allocator.rule.Covers →
    ∃ wire dense, g.wire buffer.outlet = .ok wire ∧ wire.type.bytes = .ok dense ∧
      dense ≤ buffer.block.size
  padded : ∀ allocator, allocators.get buffer.kind = some allocator →
    ∀ unit, allocator.rule.Pads unit → unit ∣ buffer.block.size

/-- A buffer starts at a multiple of what the rule of its memory pads to. -/
def Buffer.Aligned (allocators : Allocators) (buffer : Buffer) : Prop :=
  ∀ allocator, allocators.get buffer.kind = some allocator →
    ∀ unit, allocator.rule.Pads unit → unit ∣ buffer.block.offset

namespace Buffer

variable {g : Graph} {allocators : Allocators} {buffer moved : Buffer} {allocator : Allocator}

/-- It is enough that the block has the size that the rule reserves. -/
theorem accommodates_of_reserved {wire : Wire}
    (present : allocators.get buffer.kind = some allocator)
    (wired : g.wire buffer.outlet = .ok wire)
    (sized : allocator.sizeOf wire.type = .ok buffer.block.size) :
    buffer.Accommodates g allocators where
  reserved := ⟨allocator, wire, present, wired, sized⟩
  sufficient other found covers := by
    rcases Option.some.inj (present.symm.trans found) with rfl
    rcases covers wire.type _ sized with ⟨dense, counted, enough⟩
    exact ⟨wire, dense, wired, counted, enough⟩
  padded other found unit pads := by
    rcases Option.some.inj (present.symm.trans found) with rfl
    exact pads wire.type _ sized

/-- Wherever a buffer is moved, it stays large enough. -/
theorem Accommodates.move (accommodates : buffer.Accommodates g allocators)
    (same : moved.unplaced = buffer.unplaced) : moved.Accommodates g allocators := by
  rcases accommodates.reserved with ⟨allocator, wire, present, wired, sized⟩
  rcases unplaced_eq_iff.mp same with ⟨outlet, kind, size, _⟩
  exact accommodates_of_reserved (kind ▸ present) (outlet ▸ wired) (size ▸ sized)

end Buffer

/-! ## Scheduling -/

namespace Scheduling

variable {g : Graph} {scheduled : List Nat} {final step : Nat} {allocators : Allocators}
  {progress after : Progress} {outlet : Outlet}

/-- The allocators have kept their rules, and every buffer made so far is as large as they
say. -/
structure Padded (g : Graph) (allocators : Allocators) (progress : Progress) : Prop where
  rules : ∀ kind allocator, progress.allocators.get kind = some allocator →
    ∃ origin, allocators.get kind = some origin ∧ allocator.rule = origin.rule
  buffers : ∀ outlet buffer, progress.buffers.get? outlet = some buffer →
    buffer.Accommodates g allocators

theorem Padded.reserve (padded : Padded g allocators progress)
    (done : Scheduling.reserve g scheduled step final outlet progress = .ok () after) :
    Padded g allocators after := by
  rcases reserve_eq_ok done with
    ⟨wire, allocator, block, rest, wired, present, given, exchanged, _, stored⟩
  rcases padded.rules _ _ present with ⟨origin, before, kept⟩
  have sameRule := (Allocator.rule_of_allocate given).trans kept
  refine ⟨forall_allocator_set padded.rules ⟨origin, before, sameRule⟩ exchanged, ?_⟩
  intro other buffer found
  rw [stored] at found
  rcases OutletMap.get?_insert_eq_some.mp found with ⟨rfl, rfl⟩ | ⟨_, earlier⟩
  · have sized := Allocator.sizeOf_of_allocate given
    rw [Allocator.sizeOf, kept] at sized
    exact Buffer.accommodates_of_reserved before wired sized
  · exact padded.buffers other buffer earlier

theorem Padded.afterRead (padded : Padded g allocators progress) (remaining : Nat) :
    Padded g allocators (Scheduling.afterRead step outlet remaining progress) where
  rules := padded.rules
  buffers other buffer found := by
    rcases exists_before_afterRead found with ⟨earlier, _, before, rfl, -⟩
    have accommodates := padded.buffers other earlier before
    exact ⟨accommodates.reserved, accommodates.sufficient, accommodates.padded⟩

theorem Padded.reclaim (padded : Padded g allocators progress)
    (done : Scheduling.reclaim outlet progress = .ok () after) : Padded g allocators after := by
  rcases reclaim_eq_ok done with ⟨buffer, stored, _, buffers, outcome⟩
  refine ⟨?_, buffers ▸ padded.buffers⟩
  rcases outcome with ⟨same, _⟩ | ⟨_, allocator, rest, present, released, exchanged⟩
  · exact same ▸ padded.rules
  · rcases padded.rules _ _ present with ⟨origin, before, kept⟩
    have sameRule := (Allocator.rule_of_release released).trans kept
    exact forall_allocator_set padded.rules ⟨origin, before, sameRule⟩ exchanged

/-- The free spans of the memories and the buffers made so far start at multiples of what the
rules pad to. -/
structure Aligned (allocators : Allocators) (progress : Progress) : Prop where
  memories : ∀ kind allocator, progress.allocators.get kind = some allocator → allocator.Aligned
  buffers : ∀ outlet buffer, progress.buffers.get? outlet = some buffer →
    buffer.Aligned allocators

theorem Aligned.reserve (aligned : Aligned allocators progress)
    (padded : Padded g allocators progress)
    (done : Scheduling.reserve g scheduled step final outlet progress = .ok () after) :
    Aligned allocators after := by
  rcases reserve_eq_ok done with
    ⟨wire, allocator, block, rest, _, present, given, exchanged, _, stored⟩
  rcases (aligned.memories _ _ present).allocate given with ⟨blockAligned, restAligned⟩
  refine ⟨forall_allocator_set aligned.memories restAligned exchanged, ?_⟩
  intro other buffer found
  rw [stored] at found
  rcases OutletMap.get?_insert_eq_some.mp found with ⟨rfl, rfl⟩ | ⟨_, earlier⟩
  · intro origin before unit pads
    rcases padded.rules _ _ present with ⟨same, sameBefore, kept⟩
    rcases Option.some.inj (before.symm.trans sameBefore) with rfl
    exact (blockAligned unit (kept ▸ pads)).offset
  · exact aligned.buffers other buffer earlier

theorem Aligned.afterRead (aligned : Aligned allocators progress) (remaining : Nat) :
    Aligned allocators (Scheduling.afterRead step outlet remaining progress) where
  memories := aligned.memories
  buffers other buffer found := by
    rcases exists_before_afterRead found with ⟨earlier, _, before, rfl, -⟩
    exact aligned.buffers other earlier before

theorem Aligned.reclaim (aligned : Aligned allocators progress)
    (padded : Padded g allocators progress)
    (done : Scheduling.reclaim outlet progress = .ok () after) : Aligned allocators after := by
  rcases reclaim_eq_ok done with ⟨buffer, stored, _, buffers, outcome⟩
  refine ⟨?_, buffers ▸ aligned.buffers⟩
  rcases outcome with ⟨same, _⟩ | ⟨_, allocator, rest, present, released, exchanged⟩
  · exact same ▸ aligned.memories
  · rcases padded.rules _ _ present with ⟨origin, before, kept⟩
    have start : ∀ unit, allocator.rule.Pads unit → unit ∣ buffer.block.offset := by
      rw [kept]
      exact aligned.buffers outlet buffer stored origin before
    exact forall_allocator_set aligned.memories
      ((aligned.memories _ _ present).release start released) exchanged

end Scheduling

/-! ## Placing anew -/

namespace Schedule

variable {g : Graph} {allocators : Allocators} {schedule packed : Schedule} {kind : MemoryKind}
  {buffers : List Buffer} {order placed : List Candidate} {high unit : Nat} {buffer : Buffer}

/-- The lowest place between blocks that start and end at multiples is a multiple itself, as
the next multiple below it would be free too. -/
theorem LowestAfter.dvd_offset (lowest : LowestAfter placed buffer)
    (aligned : ∀ other ∈ placed, other.1.block.Aligned unit) (padded : unit ∣ buffer.block.size) :
    unit ∣ buffer.block.offset := by
  by_cases empty : buffer.block.size = 0
  · rw [lowest.offset_eq_zero empty]
    exact Nat.dvd_zero unit
  have below : unit * (buffer.block.offset / unit) ≤ buffer.block.offset :=
    Nat.mul_div_le buffer.block.offset unit
  have free : unit * (buffer.block.offset / unit) ∈ {offset | ∀ other ∈ placed,
      other.1.lifetimesMeet buffer = true →
        ¬ other.1.block.Meets ⟨offset, buffer.block.size⟩} := by
    intro other member meetInTime meets
    apply lowest.1 other member meetInTime
    rw [Block.meets_iff] at meets ⊢
    rcases meets with ⟨nonempty, _, low, high⟩
    refine ⟨nonempty, empty, by simp only at low ⊢; omega, ?_⟩
    -- The end of the other block is a multiple above the rounded offset.
    rcases Nat.dvd_add (aligned other member).offset (aligned other member).size with ⟨count, ends⟩
    rw [ends] at high ⊢
    have more : buffer.block.offset / unit + 1 ≤ count := Nat.lt_of_mul_lt_mul_left high
    have positive : 0 < unit :=
      Nat.pos_of_ne_zero fun zero => empty (Nat.zero_dvd.mp (zero ▸ padded))
    exact (Nat.lt_mul_div_succ buffer.block.offset positive).trans_le
      (Nat.mul_le_mul_left unit more)
  have same := Nat.le_antisymm below (lowest.2 free)
  exact same ▸ Nat.dvd_mul_right unit _

/-- Placing blocks of padded sizes one after the other keeps all of them aligned. -/
theorem Lowest.aligned (lowest : Lowest placed)
    (padded : ∀ candidate ∈ placed, unit ∣ candidate.1.block.size) :
    ∀ candidate ∈ placed, candidate.1.block.Aligned unit := by
  induction placed using List.reverseRecOn with
  | nil =>
      intro candidate member
      cases member
  | append_singleton earlier last inductionHypothesis =>
      have earlierLowest : Lowest earlier := by
        intro before candidate later split
        exact lowest before candidate (later ++ [last]) (by rw [split, List.append_assoc]; rfl)
      rcases List.forall_mem_append.mp padded with ⟨earlierPadded, lastPadded⟩
      have earlierAligned := inductionHypothesis earlierLowest earlierPadded
      have size : unit ∣ last.1.block.size := lastPadded last (List.mem_singleton_self last)
      refine List.forall_mem_append.mpr ⟨earlierAligned, List.forall_mem_singleton.mpr ⟨?_, size⟩⟩
      exact (lowest earlier last [] rfl).dvd_offset earlierAligned size

/-- Buffers of one memory, placed anew in any order, stay large enough, and all of them come to
start at multiples of what its rule pads to. -/
theorem Places.accommodates_and_aligned (places : Places order placed high)
    (permuted : order.Perm buffers.zipIdx)
    (each : ∀ buffer ∈ buffers, buffer.kind = kind ∧ buffer.Accommodates g allocators) :
    ∀ candidate ∈ placed,
      candidate.1.Accommodates g allocators ∧ candidate.1.Aligned allocators := by
  have large : ∀ candidate ∈ placed, candidate.1.kind = kind ∧
      candidate.1.Accommodates g allocators := by
    intro candidate member
    have moved : candidate.1 ∈ inPositions placed := mem_inPositions.mpr ⟨candidate, member, rfl⟩
    have listed := List.mem_map_of_mem (f := Buffer.unplaced) moved
    rw [places.inPositions_eq permuted] at listed
    rcases List.mem_map.mp listed with ⟨buffer, among, same⟩
    rcases each buffer among with ⟨isKind, accommodates⟩
    exact ⟨(Buffer.unplaced_eq_iff.mp same.symm).2.1.trans isKind, accommodates.move same.symm⟩
  intro candidate member
  refine ⟨(large candidate member).2, ?_⟩
  intro allocator present unit pads
  refine (places.lowest.aligned ?_ candidate member).offset
  intro other otherMember
  rcases large other otherMember with ⟨otherKind, accommodates⟩
  rw [(large candidate member).1, ← otherKind] at present
  exact accommodates.padded allocator present unit pads

/-- Every buffer of a schedule is as large as its memory says. -/
def Accommodates (g : Graph) (allocators : Allocators) (schedule : Schedule) : Prop :=
  ∀ outlet buffer, schedule.buffers.get? outlet = some buffer →
    buffer.outlet = outlet ∧ buffer.Accommodates g allocators

/-- Every buffer of a schedule starts at a multiple of what its memory pads to. -/
def Aligned (allocators : Allocators) (schedule : Schedule) : Prop :=
  ∀ outlet buffer, schedule.buffers.get? outlet = some buffer → buffer.Aligned allocators

theorem Accommodates.of_mem (accommodates : schedule.Accommodates g allocators)
    (member : buffer ∈ schedule.buffersOf kind) :
    buffer.kind = kind ∧ buffer.Accommodates g allocators := by
  rcases mem_buffersOf.mp member with ⟨⟨outlet, stored⟩, isKind⟩
  exact ⟨isKind, (accommodates outlet buffer stored).2⟩

/-- Moving buffers about leaves them as large as they were. -/
theorem Rearranges.accommodates (rearranges : Rearranges schedule packed)
    (accommodates : schedule.Accommodates g allocators) : packed.Accommodates g allocators := by
  intro outlet buffer stored
  rcases rearranges.exists_before stored with ⟨old, present, same⟩
  rcases accommodates outlet old present with ⟨own, large⟩
  exact ⟨(Buffer.unplaced_eq_iff.mp same).1.symm.trans own, large.move same.symm⟩

section

variable {capacities : PerKind (Option Nat)} {shuffles : Shuffles} {journal after : Journal}

theorem Aligned.packKind (aligned : schedule.Aligned allocators)
    (accommodates : schedule.Accommodates g allocators) (sound : schedule.Sound g)
    (lists : schedule.Lists kind buffers)
    (done : Schedule.packKind capacities shuffles kind buffers schedule journal =
      .ok (some packed) after) : packed.Aligned allocators := by
  rcases exists_places_of_packKind done with ⟨order, placed, high, permuted, places, _, _, _, rfl⟩
  have each : ∀ buffer ∈ buffers, buffer.kind = kind ∧ buffer.Accommodates g allocators := by
    intro buffer member
    rcases (lists.member buffer).mp member with ⟨⟨outlet, stored⟩, isKind⟩
    exact ⟨isKind, (accommodates outlet buffer stored).2⟩
  have moves := lists.moves sound (.of_eq (places.inPositions_eq permuted))
  intro outlet buffer stored
  rcases moves.origin stored with ⟨old, present, _, ⟨_, moved⟩ | ⟨_, rfl⟩⟩
  · rcases mem_inPositions.mp moved with ⟨candidate, member, rfl⟩
    exact (places.accommodates_and_aligned permuted each candidate member).2
  · exact aligned outlet old present

theorem Aligned.pack {budget : Nat} {changed : Bool} (aligned : schedule.Aligned allocators)
    (accommodates : schedule.Accommodates g allocators) (sound : schedule.Sound g)
    (done : schedule.pack capacities budget shuffles journal = .ok (changed, packed) after) :
    packed.Aligned allocators := by
  rcases pack_eq_ok done with ⟨_, rfl⟩ | ⟨_, moved, between, attempted, marked⟩
  · exact aligned
  · rw [Aligned, (withHighWater_eq_ok marked).2]
    exact (sound.packKinds_keeps
      (fun current => current.Accommodates g allocators ∧ current.Aligned allocators)
      (fun before scratch lists attempted holds =>
        ⟨(before.packKind scratch lists attempted).2.1.accommodates holds.1,
          holds.2.packKind holds.1 before lists attempted⟩)
      schedule.packable_nodup sound.packable_lists ⟨accommodates, aligned⟩ attempted).2.2

end

end Schedule

/-! ## Schedules -/

section

variable {g : Graph} {allocators : Allocators} {journal after : Journal} {schedule : Schedule}

end

end TensorCompiler
