import Mathlib.Data.List.Pairwise
import TensorCompiler.Proofs.Schedule.LowestFit
import TensorCompiler.Proofs.Schedule.Soundness

namespace TensorCompiler

/-!
# Packing keeps schedules sound

Packing moves the buffers of the scratch memories.  Apart from its offset it
keeps everything about a buffer, and it never touches a buffer of a persistent
kind.  That the new placement has no clash is taken from the check that packing
makes before it uses one, which is exact, and not from the way of placing.
-/

namespace OutletMap

/-- Storing buffers under their own outlets replaces exactly those outlets. -/
theorem get?_foldl_insert {buffers : List Buffer} (map : OutletMap Buffer)
    (distinct : (buffers.map Buffer.outlet).Nodup) :
    (∀ buffer ∈ buffers, (buffers.foldl (fun map buffer => map.insert buffer.outlet buffer)
      map).get? buffer.outlet = some buffer) ∧
    ∀ outlet, outlet ∉ buffers.map Buffer.outlet →
      (buffers.foldl (fun map buffer => map.insert buffer.outlet buffer) map).get? outlet =
        map.get? outlet := by
  induction buffers generalizing map with
  | nil => exact ⟨fun _ member => absurd member List.not_mem_nil, fun _ _ => rfl⟩
  | cons head rest inductionHypothesis =>
      rw [List.map_cons, List.nodup_cons] at distinct
      rcases distinct with ⟨headFresh, restDistinct⟩
      rcases inductionHypothesis (map.insert head.outlet head) restDistinct with ⟨stored, others⟩
      rw [List.foldl_cons]
      constructor
      · intro buffer member
        rcases List.mem_cons.mp member with rfl | inRest
        · rw [others buffer.outlet headFresh, get?_insert_self]
        · exact stored buffer inRest
      · intro outlet outside
        rw [List.map_cons, List.mem_cons, not_or] at outside
        rw [others outlet outside.2, get?_insert_of_ne _ _ outside.1]

end OutletMap

namespace Schedule

/-! ## What packing does to a schedule -/

/-- A schedule differs from another one only in the offsets of some buffers of
scratch memories. -/
structure Rearranges (before after : Schedule) : Prop where
  sequence : after.sequence = before.sequence
  buffers : ∀ outlet, (after.buffers.get? outlet).map Buffer.unplaced =
    (before.buffers.get? outlet).map Buffer.unplaced
  persistent : ∀ outlet buffer, before.buffers.get? outlet = some buffer →
    buffer.kind.isPersistent = true → after.buffers.get? outlet = some buffer

namespace Rearranges

variable {before between after : Schedule} {outlet : Outlet} {buffer : Buffer}

theorem refl (schedule : Schedule) : Rearranges schedule schedule :=
  ⟨rfl, fun _ => rfl, fun _ _ stored _ => stored⟩

theorem trans (first : Rearranges before between) (second : Rearranges between after) :
    Rearranges before after where
  sequence := second.sequence.trans first.sequence
  buffers outlet := (second.buffers outlet).trans (first.buffers outlet)
  persistent outlet buffer stored persists :=
    second.persistent outlet buffer (first.persistent outlet buffer stored persists) persists

theorem exists_before (rearranges : Rearranges before after)
    (stored : after.buffers.get? outlet = some buffer) :
    ∃ old, before.buffers.get? outlet = some old ∧ old.unplaced = buffer.unplaced := by
  have same := rearranges.buffers outlet
  rw [stored, Option.map_some] at same
  exact Option.map_eq_some_iff.mp same.symm

theorem exists_after (rearranges : Rearranges before after)
    (stored : before.buffers.get? outlet = some buffer) :
    ∃ new, after.buffers.get? outlet = some new ∧ new.unplaced = buffer.unplaced := by
  have same := rearranges.buffers outlet
  rw [stored, Option.map_some] at same
  exact Option.map_eq_some_iff.mp same

end Rearranges

end Schedule

open Scheduling in
/-- Where a buffer lies has nothing to do with the steps it is needed for. -/
theorem Scheduling.Describes.congr {g : Graph} {scheduled sequence : List Nat} {final : Nat}
    {outlet : Outlet} {buffer moved : Buffer} (same : buffer.unplaced = moved.unplaced)
    (describes : Describes g scheduled final sequence outlet buffer) :
    Describes g scheduled final sequence outlet moved := by
  rcases Buffer.unplaced_eq_iff.mp same with ⟨own, kind, _, first, last, pinned⟩
  refine ⟨own ▸ describes.own, ?_, first ▸ describes.first, ?_, ?_⟩
  · rw [← kind, ← pinned]
    exact describes.wire
  · rw [← pinned, ← last]
    exact describes.lastPinned
  · rw [← pinned, ← last, ← first]
    exact describes.lastUnpinned

namespace Schedule

/-- Buffers can be moved within scratch memory as long as they do not clash. -/
theorem Sound.rearrange {g : Graph} {before after : Schedule} (sound : before.Sound g)
    (rearranges : Rearranges before after)
    (fits : ∀ outlet buffer, after.buffers.get? outlet = some buffer → buffer.block.Fits)
    (apart : ∀ outlet other buffer otherBuffer, outlet ≠ other →
      after.buffers.get? outlet = some buffer →
      after.buffers.get? other = some otherBuffer → ¬ buffer.Clashes otherBuffer) :
    after.Sound g := by
  have sameFinal : after.final = before.final := by rw [final, final, rearranges.sequence]
  refine ⟨rearranges.sequence ▸ sound.distinct, ?_, ?_, ?_, fits, apart⟩
  · intro outlet
    rw [rearranges.sequence, ← sound.keys]
    constructor
    · rintro ⟨buffer, stored⟩
      rcases rearranges.exists_before stored with ⟨old, present, _⟩
      exact ⟨old, present⟩
    · rintro ⟨buffer, stored⟩
      rcases rearranges.exists_after stored with ⟨new, present, _⟩
      exact ⟨new, present⟩
  · intro outlet buffer stored
    rcases rearranges.exists_before stored with ⟨old, present, same⟩
    rw [sameFinal, rearranges.sequence]
    exact (sound.entry outlet old present).congr same
  · intro outlet position read
    rw [rearranges.sequence] at read
    rcases sound.served outlet position read with ⟨old, present, bound⟩
    rcases rearranges.exists_after present with ⟨new, stored, same⟩
    refine ⟨new, stored, ?_⟩
    rw [(Buffer.unplaced_eq_iff.mp same).2.2.2.1]
    exact bound

/-- A list holds exactly the buffers of one kind, each once. -/
structure Lists (schedule : Schedule) (kind : MemoryKind) (buffers : List Buffer) : Prop where
  member : ∀ buffer, buffer ∈ buffers ↔
    (∃ outlet, schedule.buffers.get? outlet = some buffer) ∧ buffer.kind = kind
  distinct : (buffers.map Buffer.outlet).Nodup

theorem Sound.lists_buffersOf {g : Graph} {schedule : Schedule} (sound : schedule.Sound g)
    (kind : MemoryKind) : schedule.Lists kind (schedule.buffersOf kind) := by
  constructor
  · intro buffer
    rw [buffersOf, List.mem_filter, OutletMap.mem_values, decide_eq_true_eq]
  · have distinct : schedule.buffers.values.Pairwise
        fun first second => first.outlet ≠ second.outlet := by
      apply OutletMap.pairwise_values
      intro outlet other buffer otherBuffer different stored otherStored same
      rw [(sound.entry outlet buffer stored).own, (sound.entry other otherBuffer otherStored).own]
        at same
      exact different same
    rw [List.Nodup, List.pairwise_map]
    exact distinct.filter _

/-- A successful attempt to pack one kind puts placed and checked buffers back, below a mark
that is lower than the present one and within the capacity. -/
theorem exists_places_of_packKind {capacities : PerKind (Option Nat)} {shuffles : Shuffles}
    {kind : MemoryKind} {buffers : List Buffer} {schedule packed : Schedule}
    {journal after : Journal}
    (done : packKind capacities shuffles kind buffers schedule journal = .ok (some packed) after) :
    ∃ order placed high, order.Perm buffers.zipIdx ∧ Places order placed high ∧
      findConflict (inPositions placed) = .ok none ∧ high < schedule.highWater.get kind ∧
      (∀ size, capacities.get kind = some size → high ≤ size) ∧
      packed = { schedule with
        buffers := (inPositions placed).foldl (fun map buffer => map.insert buffer.outlet buffer)
          schedule.buffers } := by
  simp only [packKind, Stateful.bind_eq_ok, Stateful.lift_eq_ok] at done
  rcases done with ⟨⟨placed, high⟩, _, ⟨found, rfl⟩, done⟩
  rcases bestPlacement_eq_ok found with ⟨order, permuted, places⟩
  simp only at done
  split at done
  · simp only [Stateful.bind_eq_ok, Stateful.pure_eq_ok] at done
    rcases done with ⟨_, _, _, impossible, _⟩
    cases impossible
  · next better =>
    simp only [Stateful.bind_eq_ok, Stateful.lift_eq_ok] at done
    rcases done with ⟨conflict, _, ⟨checked, rfl⟩, done⟩
    cases conflict with
    | some pair =>
        simp only [Stateful.bind_eq_ok, Stateful.pure_eq_ok] at done
        rcases done with ⟨_, _, _, impossible, _⟩
        cases impossible
    | none =>
        simp only [Stateful.bind_eq_ok, Stateful.pure_eq_ok] at done
        rcases done with ⟨_, _, _, result, _⟩
        rcases not_or.mp better with ⟨lower, fits⟩
        refine ⟨order, placed, high, permuted, places, checked, Nat.not_le.mp lower, ?_,
          (Option.some.inj result).symm⟩
        intro size bounded
        simpa [bounded] using fits

/-- What such an attempt makes of the buffers, without the order in which they were placed. -/
theorem packKind_eq_ok {capacities : PerKind (Option Nat)} {shuffles : Shuffles}
    {kind : MemoryKind} {buffers : List Buffer} {schedule packed : Schedule}
    {journal after : Journal}
    (done : packKind capacities shuffles kind buffers schedule journal = .ok (some packed) after) :
    ∃ moved : List Buffer, (moved.map Buffer.unplaced).Perm (buffers.map Buffer.unplaced) ∧
      (∀ buffer ∈ moved, buffer.block.Fits) ∧ findConflict moved = .ok none ∧
      (∃ high, high < schedule.highWater.get kind ∧
        (∀ size, capacities.get kind = some size → high ≤ size) ∧
        ∀ buffer ∈ moved, buffer.block.offset + buffer.block.size ≤ high) ∧
      packed = { schedule with
        buffers := moved.foldl (fun map buffer => map.insert buffer.outlet buffer)
          schedule.buffers } := by
  rcases exists_places_of_packKind done with
    ⟨order, placed, high, permuted, places, checked, lower, fits, result⟩
  exact ⟨inPositions placed, .of_eq (places.inPositions_eq permuted),
    fun buffer member => (places.fits_and_below member).1, checked,
    ⟨high, lower, fits, fun buffer member => (places.fits_and_below member).2⟩, result⟩

section

variable {g : Graph} {schedule packed : Schedule} {kind : MemoryKind} {buffers moved : List Buffer}
  {capacities : PerKind (Option Nat)} {shuffles : Shuffles} {journal after : Journal}

/-- The buffers of one kind have been exchanged for some that differ from them
in their blocks only. -/
structure Moves (schedule packed : Schedule) (kind : MemoryKind) (moved : List Buffer) : Prop where
  sequence : packed.sequence = schedule.sequence
  ofKind : ∀ outlet old, schedule.buffers.get? outlet = some old → old.kind = kind →
    ∃ new ∈ moved, packed.buffers.get? outlet = some new ∧ new.unplaced = old.unplaced
  ofOther : ∀ outlet, (∀ old, schedule.buffers.get? outlet = some old → old.kind ≠ kind) →
    packed.buffers.get? outlet = schedule.buffers.get? outlet

/-- Putting moved buffers into the table exchanges those of their kind. -/
theorem Lists.moves (lists : schedule.Lists kind buffers) (sound : schedule.Sound g)
    (same : (moved.map Buffer.unplaced).Perm (buffers.map Buffer.unplaced)) :
    Moves schedule { schedule with
      buffers := moved.foldl (fun map buffer => map.insert buffer.outlet buffer)
        schedule.buffers } kind moved := by
  have sameOutlets : (moved.map Buffer.outlet).Perm (buffers.map Buffer.outlet) := by
    have outlets := same.map Buffer.outlet
    rw [List.map_map, List.map_map] at outlets
    exact outlets
  rcases OutletMap.get?_foldl_insert schedule.buffers (sameOutlets.symm.nodup lists.distinct) with
    ⟨stored, others⟩
  refine ⟨rfl, ?_, ?_⟩
  · intro outlet old present ofKind
    have listed := (lists.member old).mpr ⟨⟨outlet, present⟩, ofKind⟩
    rcases List.mem_map.mp (same.mem_iff.mpr (List.mem_map_of_mem listed)) with
      ⟨new, member, sameNew⟩
    have own : new.outlet = outlet :=
      (Buffer.unplaced_eq_iff.mp sameNew).1.trans (sound.entry outlet old present).own
    exact ⟨new, member, own ▸ stored new member, sameNew⟩
  · intro outlet foreign
    apply others outlet
    intro member
    rcases List.mem_map.mp (sameOutlets.mem_iff.mp member) with ⟨old, listed, own⟩
    rcases (lists.member old).mp listed with ⟨⟨key, present⟩, ofKind⟩
    rw [(sound.entry key old present).own] at own
    exact foreign old (own ▸ present) ofKind

namespace Moves

theorem untouched (moves : Moves schedule packed kind moved) {outlet : Outlet} {old : Buffer}
    (present : schedule.buffers.get? outlet = some old) (foreign : old.kind ≠ kind) :
    packed.buffers.get? outlet = some old := by
  rw [moves.ofOther outlet fun again stored => by
    rwa [← Option.some.inj (present.symm.trans stored)]]
  exact present

/-- A stored buffer is a moved one or an old one. -/
theorem origin (moves : Moves schedule packed kind moved) {outlet : Outlet} {buffer : Buffer}
    (stored : packed.buffers.get? outlet = some buffer) :
    ∃ old, schedule.buffers.get? outlet = some old ∧ buffer.unplaced = old.unplaced ∧
      ((buffer.kind = kind ∧ buffer ∈ moved) ∨ (buffer.kind ≠ kind ∧ old = buffer)) := by
  cases present : schedule.buffers.get? outlet with
  | none =>
      rw [moves.ofOther outlet (by simp [present]), present] at stored
      cases stored
  | some old =>
      refine ⟨old, rfl, ?_⟩
      by_cases isKind : old.kind = kind
      · rcases moves.ofKind outlet old present isKind with ⟨new, member, found, sameNew⟩
        rcases Option.some.inj (found.symm.trans stored) with rfl
        have newKind := (Buffer.unplaced_eq_iff.mp sameNew).2.1.trans isKind
        exact ⟨sameNew, Or.inl ⟨newKind, member⟩⟩
      · rcases Option.some.inj ((moves.untouched present isKind).symm.trans stored) with rfl
        exact ⟨rfl, Or.inr ⟨isKind, rfl⟩⟩

theorem rearranges (moves : Moves schedule packed kind moved)
    (scratch : kind.isPersistent = false) : Rearranges schedule packed := by
  refine ⟨moves.sequence, ?_, ?_⟩
  · intro outlet
    cases stored : packed.buffers.get? outlet with
    | some buffer =>
        rcases moves.origin stored with ⟨old, present, sameOld, _⟩
        rw [present, Option.map_some, Option.map_some, sameOld]
    | none =>
        cases present : schedule.buffers.get? outlet with
        | none => rfl
        | some old =>
            by_cases isKind : old.kind = kind
            · rcases moves.ofKind outlet old present isKind with ⟨new, _, found, _⟩
              rw [stored] at found
              cases found
            · rw [moves.untouched present isKind] at stored
              cases stored
  · intro outlet old present persists
    apply moves.untouched present
    rintro rfl
    rw [scratch] at persists
    cases persists

/-- The buffers of another kind are still the same. -/
theorem lists (moves : Moves schedule packed kind moved) {other : MemoryKind}
    {list : List Buffer} (different : other ≠ kind) (otherLists : schedule.Lists other list) :
    packed.Lists other list := by
  refine ⟨?_, otherLists.distinct⟩
  intro buffer
  rw [otherLists.member]
  constructor
  · rintro ⟨⟨outlet, present⟩, rfl⟩
    exact ⟨⟨outlet, moves.untouched present different⟩, rfl⟩
  · rintro ⟨⟨outlet, stored⟩, rfl⟩
    rcases moves.origin stored with ⟨old, present, _, ⟨isKind, _⟩ | ⟨_, rfl⟩⟩
    · exact absurd isKind different
    · exact ⟨⟨outlet, present⟩, rfl⟩

/-- If the moved buffers do not clash with each other, then no buffers do. -/
theorem apart (moves : Moves schedule packed kind moved) (sound : schedule.Sound g)
    (quiet : moved.Pairwise fun first second => ¬ first.Clashes second)
    {outlet other : Outlet} {buffer otherBuffer : Buffer} (different : outlet ≠ other)
    (stored : packed.buffers.get? outlet = some buffer)
    (otherStored : packed.buffers.get? other = some otherBuffer) :
    ¬ buffer.Clashes otherBuffer := by
  have symmetric : Std.Symm fun first second : Buffer => ¬ first.Clashes second :=
    ⟨fun _ _ clashFree clash => clashFree clash.symm⟩
  intro clashes
  rcases moves.origin stored with
    ⟨old, present, sameOld, ⟨isKind, member⟩ | ⟨notKind, rfl⟩⟩
  · rcases moves.origin otherStored with
      ⟨otherOld, otherPresent, otherSame, ⟨_, otherMember⟩ | ⟨otherNotKind, _⟩⟩
    · refine quiet.forall member otherMember ?_ clashes
      rintro rfl
      have own := sound.entry outlet old present |>.own
      have otherOwn := sound.entry other otherOld otherPresent |>.own
      rw [← own, ← otherOwn, ← (Buffer.unplaced_eq_iff.mp sameOld).1,
        ← (Buffer.unplaced_eq_iff.mp otherSame).1] at different
      exact different rfl
    · exact otherNotKind (clashes.1 ▸ isKind)
  · rcases moves.origin otherStored with
      ⟨otherOld, otherPresent, _, ⟨otherKind, _⟩ | ⟨_, rfl⟩⟩
    · exact notKind (clashes.1 ▸ otherKind)
    · exact sound.apart outlet other old otherOld different present otherPresent clashes

end Moves

/-- Packing one scratch kind keeps a schedule sound, and leaves the other kinds
alone. -/
theorem Sound.packKind (sound : schedule.Sound g) (scratch : kind.isPersistent = false)
    (lists : schedule.Lists kind buffers)
    (done : Schedule.packKind capacities shuffles kind buffers schedule journal =
      .ok (some packed) after) :
    packed.Sound g ∧ Rearranges schedule packed ∧
      ∀ other list, other ≠ kind → schedule.Lists other list → packed.Lists other list := by
  rcases packKind_eq_ok done with ⟨moved, same, fit, checked, _, rfl⟩
  have moves := lists.moves sound same
  have ordered : ∀ buffer ∈ moved, buffer.first ≤ buffer.last := by
    intro buffer member
    rcases List.mem_map.mp (same.mem_iff.mp (List.mem_map_of_mem member)) with
      ⟨old, listed, sameOld⟩
    rcases (lists.member old).mp listed with ⟨⟨outlet, present⟩, _⟩
    rcases Buffer.unplaced_eq_iff.mp sameOld with ⟨_, _, _, first, last, _⟩
    rw [← first, ← last]
    exact sound.first_le_last present
  have quiet := (findConflict_eq_none fit ordered).mp checked
  refine ⟨sound.rearrange (moves.rearranges scratch) ?_ ?_, moves.rearranges scratch, ?_⟩
  · intro outlet buffer stored
    rcases moves.origin stored with ⟨old, present, _, ⟨_, member⟩ | ⟨_, rfl⟩⟩
    · exact fit buffer member
    · exact sound.fits outlet old present
  · intro outlet other buffer otherBuffer different stored otherStored
    exact moves.apart sound quiet different stored otherStored
  · intro other list different
    exact moves.lists different

/-- Packing several scratch kinds, each with its own list, keeps what packing one of them in a
sound schedule keeps. -/
theorem Sound.packKinds_keeps {entries : List (MemoryKind × List Buffer)} {changed : Bool}
    (holds : Schedule → Prop)
    (step : ∀ {kind buffers before better start later}, before.Sound g →
      kind.isPersistent = false → before.Lists kind buffers →
      Schedule.packKind capacities shuffles kind buffers before start = .ok (some better) later →
      holds before → holds better)
    (sound : schedule.Sound g) (distinct : (entries.map Prod.fst).Nodup)
    (listed : ∀ entry ∈ entries, entry.1.isPersistent = false ∧ schedule.Lists entry.1 entry.2)
    (start : holds schedule)
    (done : Schedule.packKinds capacities shuffles entries schedule journal =
      .ok (changed, packed) after) :
    packed.Sound g ∧ holds packed := by
  induction entries generalizing schedule journal changed with
  | nil =>
      simp only [Schedule.packKinds, Stateful.pure_eq_ok, Prod.mk.injEq] at done
      rcases done with ⟨⟨_, rfl⟩, _⟩
      exact ⟨sound, start⟩
  | cons entry rest inductionHypothesis =>
      rcases entry with ⟨kind, buffers⟩
      rcases List.forall_mem_cons.mp listed with ⟨⟨scratch, lists⟩, restListed⟩
      rcases List.nodup_cons.mp distinct with ⟨kindFresh, restDistinct⟩
      simp only [Schedule.packKinds, Stateful.bind_eq_ok] at done
      rcases done with ⟨outcome, between, attempted, done⟩
      cases outcome with
      | none => exact inductionHypothesis sound restDistinct restListed start done
      | some better =>
          simp only [Stateful.bind_eq_ok, Stateful.pure_eq_ok, Prod.mk.injEq] at done
          rcases done with ⟨⟨_, last⟩, _, later, ⟨_, rfl⟩, rfl⟩
          rcases sound.packKind scratch lists attempted with ⟨betterSound, _, others⟩
          refine inductionHypothesis betterSound restDistinct ?_
            (step sound scratch lists attempted start) later
          intro entry member
          rcases restListed entry member with ⟨entryScratch, entryLists⟩
          refine ⟨entryScratch, others entry.1 entry.2 ?_ entryLists⟩
          intro same
          exact kindFresh (same ▸ List.mem_map_of_mem member)

theorem Sound.packKinds {entries : List (MemoryKind × List Buffer)} {changed : Bool}
    (sound : schedule.Sound g)
    (distinct : (entries.map Prod.fst).Nodup)
    (listed : ∀ entry ∈ entries, entry.1.isPersistent = false ∧ schedule.Lists entry.1 entry.2)
    (done : Schedule.packKinds capacities shuffles entries schedule journal =
      .ok (changed, packed) after) :
    packed.Sound g ∧ Rearranges schedule packed :=
  sound.packKinds_keeps (Rearranges schedule)
    (fun before scratch lists attempted rearranges =>
      rearranges.trans (before.packKind scratch lists attempted).2.1)
    distinct listed (.refl schedule) done

theorem packable_nodup (schedule : Schedule) : (schedule.packable.map Prod.fst).Nodup := by
  have kinds : (MemoryKind.all.filter fun kind => !kind.isPersistent).Nodup := by decide
  apply List.Nodup.sublist (List.filter_sublist.map Prod.fst)
  rw [List.map_map]
  exact (List.map_id _).symm ▸ kinds

theorem Sound.packable_lists (sound : schedule.Sound g) :
    ∀ entry ∈ schedule.packable,
      entry.1.isPersistent = false ∧ schedule.Lists entry.1 entry.2 := by
  intro entry member
  rcases exists_packable member with ⟨kind, scratch, rfl⟩
  exact ⟨scratch, sound.lists_buffersOf kind⟩

theorem withHighWater_eq_ok (done : schedule.withHighWater = .ok packed) :
    packed.sequence = schedule.sequence ∧ packed.buffers = schedule.buffers := by
  simp only [withHighWater, Checked.bind_eq_ok, Checked.pure_eq_ok] at done
  rcases done with ⟨_, _, rfl⟩
  exact ⟨rfl, rfl⟩

/-- Packing keeps a schedule sound and changes only offsets in scratch memory. -/
theorem Sound.pack {budget : Nat} {changed : Bool} (sound : schedule.Sound g)
    (done : schedule.pack capacities budget shuffles journal = .ok (changed, packed) after) :
    packed.Sound g ∧ Rearranges schedule packed := by
  unfold Schedule.pack at done
  split at done
  · rw [Stateful.pure_eq_ok] at done
    rcases done with ⟨result, _⟩
    rcases Prod.mk.inj result with ⟨_, rfl⟩
    exact ⟨sound, .refl schedule⟩
  · simp only [Stateful.bind_eq_ok] at done
    rcases done with ⟨⟨moved, result⟩, _, attempted, done⟩
    simp only at done
    rcases sound.packKinds schedule.packable_nodup sound.packable_lists attempted with
      ⟨resultSound, rearranges⟩
    split at done
    · simp only [Stateful.bind_eq_ok, Stateful.lift_eq_ok, Stateful.pure_eq_ok,
        Prod.mk.injEq] at done
      rcases done with ⟨withMarks, _, ⟨marked, _⟩, ⟨_, rfl⟩, _⟩
      rcases withHighWater_eq_ok marked with ⟨sequence, buffers⟩
      have marks : Rearranges result withMarks :=
        ⟨sequence, fun _ => by rw [buffers], fun _ _ stored _ => by rwa [buffers]⟩
      refine ⟨resultSound.rearrange marks ?_ ?_, rearranges.trans marks⟩
      · rw [buffers]
        exact resultSound.fits
      · rw [buffers]
        exact resultSound.apart
    · rw [Stateful.pure_eq_ok] at done
      rcases done with ⟨unchanged, _⟩
      rcases Prod.mk.inj unchanged with ⟨_, rfl⟩
      exact ⟨sound, .refl schedule⟩

end

end Schedule
end TensorCompiler
