import TensorCompiler.Proofs.Construction.Builders
import TensorCompiler.Proofs.Schedule.Marks
import TensorCompiler.Proofs.Schedule.Usage

namespace TensorCompiler

/-!
# The bytes that a run counts

A schedule takes the most bytes that were given out at the same time from the counters of
the allocators.  In the middle of a run the bytes given out are those of the buffers that
are pinned, will still be read, or belong to the node that runs.  Once the results of a node
are reserved, these are the buffers that the finished schedule calls alive at this step.  So
the counters agree with the lifetimes in the table.

The argument needs the readers that were counted to be the reads that take place.  A counted
reader reads, since links are faithful; and a read that was not counted stops the run.
-/

namespace Scheduling

section

variable {g : Graph} {scheduled sequence ids : List Nat} {final step : Nat}
  {progress after : Progress}

/-! ## Counts -/

/-- What a buffer adds to the bytes that are given out, if those of some outlets and the
pinned ones are. -/
def neededWeight (kind : MemoryKind) (needed : List Outlet) (outlet : Outlet) (buffer : Buffer) :
    Nat :=
  if buffer.kind = kind ∧ (buffer.pinned = true ∨ outlet ∈ needed) then buffer.block.size else 0

/-- The books of a run: the readers counted are the reads to come, and the bytes given out
since the start are those of the pinned buffers and the needed ones. -/
structure Tallied (base : MemoryKind → Nat) (progress : Progress) (queue needed : List Outlet) :
    Prop where
  counted : ∀ outlet count, progress.pending.get? outlet = some count →
    count = queue.count outlet
  known : ∀ outlet buffer, progress.buffers.get? outlet = some buffer →
    ∃ count, progress.pending.get? outlet = some count
  owned : ∀ outlet buffer, progress.buffers.get? outlet = some buffer →
    ∃ allocator, progress.allocators.get buffer.kind = some allocator
  live : ∀ kind, progress.counter Allocator.live kind =
    base kind + progress.buffers.total (neededWeight kind needed)
  peak : ∀ kind, progress.counter Allocator.live kind ≤ progress.counter Allocator.peakLive kind

section

variable {base : MemoryKind → Nat} {queue needed rest : List Outlet} {outlet : Outlet}

theorem neededWeight_congr {kind : MemoryKind} {buffer : Buffer}
    (same : outlet ∈ rest ↔ outlet ∈ needed) :
    neededWeight kind rest outlet buffer = neededWeight kind needed outlet buffer := by
  simp only [neededWeight, same]

theorem Tallied.congr (tallied : Tallied base progress queue needed)
    (same : ∀ outlet, outlet ∈ rest ↔ outlet ∈ needed) : Tallied base progress queue rest where
  counted := tallied.counted
  known := tallied.known
  owned := tallied.owned
  live kind := by
    rw [tallied.live]
    congr 2
    funext outlet buffer
    exact (neededWeight_congr (same outlet)).symm
  peak := tallied.peak

/-- An allocation adds its bytes to the count of its memory, and that count may be a new
peak. -/
theorem Tallied.counters_of_allocation {memory : MemoryKind} {allocator remaining : Allocator}
    {type : TensorType} {block : Block} (tallied : Tallied base progress queue needed)
    (present : progress.allocators.get memory = some allocator)
    (allocated : allocator.allocate type = .ok (some (block, remaining)))
    (allocators : after.allocators = progress.allocators.set memory (some remaining))
    (kind : MemoryKind) :
    after.counter Allocator.live kind =
        progress.counter Allocator.live kind + (if memory = kind then block.size else 0) ∧
      after.counter Allocator.peakLive kind =
        max (progress.counter Allocator.peakLive kind) (after.counter Allocator.live kind) := by
  rcases Allocator.counters_of_allocate allocated with ⟨nowLive, nowPeak⟩
  rw [Progress.counter_of_set allocators, Progress.counter_of_set allocators]
  by_cases same : memory = kind
  · subst same
    rw [if_pos rfl, if_pos rfl, if_pos rfl, nowPeak, nowLive, Progress.counter_of_get present,
      Progress.counter_of_get present]
    exact ⟨rfl, rfl⟩
  · rw [if_neg (Ne.symm same), if_neg (Ne.symm same), if_neg same, Nat.add_zero,
      Nat.max_eq_left (tallied.peak kind)]
    exact ⟨rfl, rfl⟩

/-- A new buffer is given out to the node that runs. -/
theorem Tallied.reserve (tallied : Tallied base progress queue needed)
    (fresh : progress.buffers.get? outlet = none)
    (readers : ∀ wire, g.wire outlet = .ok wire →
      (scheduledReaders scheduled wire).length = queue.count outlet)
    (done : Scheduling.reserve g scheduled step final outlet progress = .ok () after) :
    Tallied base after queue (outlet :: needed) ∧
      ∀ kind, progress.counter Allocator.live kind ≤ after.counter Allocator.live kind ∧
        after.counter Allocator.peakLive kind =
          max (progress.counter Allocator.peakLive kind) (after.counter Allocator.live kind) := by
  rcases reserve_eq_ok done with
    ⟨wire, allocator, block, rest, wired, present, allocated, allocators, pending, buffers⟩
  have counters := tallied.counters_of_allocation present allocated allocators
  have live := fun kind => (counters kind).1
  have peak := fun kind => (counters kind).2
  refine ⟨?_, fun kind => ⟨by rw [live]; exact Nat.le_add_right _ _, peak kind⟩⟩
  constructor
  case counted =>
    intro other count entry
    rw [pending] at entry
    rcases OutletMap.get?_insert_eq_some.mp entry with ⟨rfl, rfl⟩ | ⟨_, before⟩
    · exact readers wire wired
    · exact tallied.counted other count before
  case known =>
    intro other buffer stored
    rw [pending, OutletMap.get?_insert]
    rw [buffers, OutletMap.get?_insert] at stored
    split
    · exact ⟨_, rfl⟩
    · next different =>
      rw [if_neg different] at stored
      exact tallied.known other buffer stored
  case owned =>
    intro other buffer stored
    rw [allocators, PerKind.get_set]
    split
    · exact ⟨rest, rfl⟩
    · next otherKind =>
      rw [buffers] at stored
      rcases OutletMap.get?_insert_eq_some.mp stored with ⟨_, rfl⟩ | ⟨_, before⟩
      · exact absurd rfl otherKind
      · exact tallied.owned other buffer before
  case live =>
    intro kind
    have elsewhere : ∀ other, other ≠ outlet →
        progress.buffers.share (neededWeight kind needed) other =
          after.buffers.share (neededWeight kind (outlet :: needed)) other := by
      intro other different
      rw [OutletMap.share, OutletMap.share, buffers, OutletMap.get?_insert_of_ne _ _ different]
      congr 1
      funext buffer
      exact neededWeight_congr (by simp [different])
    have own : after.buffers.share (neededWeight kind (outlet :: needed)) outlet =
        if wire.memory = kind then block.size else 0 := by
      rw [OutletMap.share, buffers, OutletMap.get?_insert_self, Option.elim_some]
      simp [neededWeight, newBuffer]
    have exchanged := OutletMap.total_exchange outlet elsewhere
    rw [own, OutletMap.share_of_none fresh] at exchanged
    rw [live, tallied.live]
    omega
  case peak =>
    intro kind
    rw [peak]
    exact Nat.le_max_right _ _

/-- Noting a read leaves all counts of bytes as they are. -/
theorem Tallied.afterRead (tallied : Tallied base progress (outlet :: queue) needed) :
    Tallied base (Scheduling.afterRead step outlet (queue.count outlet) progress) queue needed where
  counted other count entry := by
    change (progress.pending.insert outlet (queue.count outlet)).get? other = some count at entry
    rcases OutletMap.get?_insert_eq_some.mp entry with ⟨rfl, rfl⟩ | ⟨different, before⟩
    · rfl
    · rw [tallied.counted other count before, List.count_cons_of_ne (Ne.symm different)]
  known other buffer stored := by
    change ∃ count, (progress.pending.insert outlet (queue.count outlet)).get? other = some count
    rw [OutletMap.get?_insert]
    split
    · exact ⟨_, rfl⟩
    · rcases exists_before_afterRead stored with ⟨earlier, _, before, -⟩
      exact tallied.known other earlier before
  owned other buffer stored := by
    rcases exists_before_afterRead stored with ⟨earlier, _, before, rfl, -⟩
    exact tallied.owned other earlier before
  live kind := by
    refine (tallied.live kind).trans
      (congrArg (base kind + ·) (OutletMap.total_congr fun other => ?_))
    cases stored : progress.buffers.get? other with
    | none => rw [OutletMap.share, OutletMap.share, buffers_afterRead, stored]; rfl
    | some buffer =>
        rcases exists_afterRead (queue.count outlet) stored with ⟨last, extended⟩
        rw [OutletMap.share_of_some stored, OutletMap.share_of_some extended]
        rfl
  peak := tallied.peak

/-- When one outlet is needed no longer, the weight of its buffer goes, unless it is pinned. -/
theorem total_neededWeight_exchange {buffers : OutletMap Buffer} {buffer : Buffer}
    (stored : buffers.get? outlet = some buffer)
    (others : ∀ other, other ∈ rest ↔ other ∈ needed ∧ other ≠ outlet) (kind : MemoryKind) :
    buffers.total (neededWeight kind needed) + neededWeight kind rest outlet buffer =
      buffers.total (neededWeight kind rest) + neededWeight kind needed outlet buffer := by
  have elsewhere : ∀ other, other ≠ outlet →
      buffers.share (neededWeight kind needed) other =
        buffers.share (neededWeight kind rest) other := by
    intro other different
    rw [OutletMap.share, OutletMap.share]
    congr 1
    funext buffer
    exact (neededWeight_congr (by simp [others, different])).symm
  have exchanged := OutletMap.total_exchange outlet elsewhere
  rwa [OutletMap.share_of_some stored, OutletMap.share_of_some stored] at exchanged

/-- Reclaiming a buffer takes its bytes from the count, unless it is pinned. -/
theorem Tallied.counters_of_reclaim {buffer : Buffer} (tallied : Tallied base progress queue needed)
    (stored : progress.buffers.get? outlet = some buffer)
    (done : Scheduling.reclaim outlet progress = .ok () after) (kind : MemoryKind) :
    progress.counter Allocator.live kind = after.counter Allocator.live kind +
        (if buffer.kind = kind ∧ buffer.pinned = false then buffer.block.size else 0) ∧
      after.counter Allocator.peakLive kind = progress.counter Allocator.peakLive kind := by
  rcases reclaim_eq_ok done with ⟨same, sameStored, _, _, outcome⟩
  rcases Option.some.inj (stored.symm.trans sameStored) with rfl
  rcases outcome with
    ⟨allocators, reason⟩ | ⟨unpinned, allocator, left, present, released, allocators⟩
  · have pinned : buffer.pinned = true := by
      rcases tallied.owned outlet buffer stored with ⟨allocator, present⟩
      refine reason.resolve_right fun absent => ?_
      rw [absent] at present
      cases present
    rw [if_neg (by simp [pinned]), Progress.counter, Progress.counter, allocators]
    exact ⟨rfl, rfl⟩
  · rcases Allocator.counters_of_release released with ⟨leftLive, leftPeak⟩
    rw [Progress.counter_of_set allocators, Progress.counter_of_set allocators]
    by_cases same : buffer.kind = kind
    · subst same
      rw [if_pos rfl, if_pos rfl, if_pos ⟨rfl, unpinned⟩, Progress.counter_of_get present,
        Progress.counter_of_get present]
      exact ⟨leftLive, leftPeak⟩
    · rw [if_neg (Ne.symm same), if_neg (Ne.symm same), if_neg fun both => same both.1]
      exact ⟨rfl, rfl⟩

/-- A buffer that is needed no longer goes back. -/
theorem Tallied.reclaim (tallied : Tallied base progress queue needed) (isNeeded : outlet ∈ needed)
    (others : ∀ other, other ∈ rest ↔ other ∈ needed ∧ other ≠ outlet)
    (done : Scheduling.reclaim outlet progress = .ok () after) :
    Tallied base after queue rest ∧ ∀ kind, after.counter Allocator.peakLive kind =
      progress.counter Allocator.peakLive kind := by
  rcases reclaim_eq_ok done with ⟨buffer, stored, pending, buffers, outcome⟩
  have counters := tallied.counters_of_reclaim stored done
  have gone : outlet ∉ rest := fun member => ((others outlet).mp member).2 rfl
  refine ⟨?_, fun kind => (counters kind).2⟩
  constructor
  case counted =>
    rw [pending]
    exact tallied.counted
  case known =>
    rw [buffers, pending]
    exact tallied.known
  case owned =>
    rw [buffers]
    intro other otherBuffer otherStored
    rcases outcome with ⟨allocators, _⟩ | ⟨_, _, left, _, _, allocators⟩
    · rw [allocators]
      exact tallied.owned other otherBuffer otherStored
    · rw [allocators, PerKind.get_set]
      split
      · exact ⟨left, rfl⟩
      · exact tallied.owned other otherBuffer otherStored
  case live =>
    intro kind
    have weights := total_neededWeight_exchange stored others kind
    have live := (counters kind).1
    rw [tallied.live] at live
    rw [neededWeight, neededWeight] at weights
    simp only [isNeeded, gone, or_true, or_false, and_true] at weights
    rw [buffers]
    cases pinned : buffer.pinned with
    | true =>
        simp only [pinned, and_true, Bool.true_eq_false, and_false, if_false] at weights live
        omega
    | false =>
        simp only [pinned, and_true, Bool.false_eq_true, and_false, if_false] at weights live
        omega
  case peak =>
    intro kind
    rw [(counters kind).2]
    have := (counters kind).1
    have := tallied.peak kind
    omega

/-- An outlet is done with: its buffer goes back if no other read of it is to come. -/
theorem Tallied.retire {current : List Outlet} (tallied : Tallied base progress queue needed)
    (parts : ∀ other, other ∈ needed ↔ other = outlet ∨ other ∈ queue ++ current)
    (foreign : outlet ∉ current)
    (done : (if queue.count outlet = 0 then Scheduling.reclaim outlet else pure ()) progress =
      .ok () after) :
    Tallied base after queue (queue ++ current) ∧ ∀ kind, after.counter Allocator.peakLive kind =
      progress.counter Allocator.peakLive kind := by
  by_cases unread : queue.count outlet = 0
  · rw [if_pos unread] at done
    refine tallied.reclaim ((parts outlet).mpr (Or.inl rfl)) ?_ done
    intro other
    have notQueued := List.count_eq_zero.mp unread
    rw [parts]
    constructor
    · intro member
      refine ⟨Or.inr member, ?_⟩
      rintro rfl
      exact (List.mem_append.mp member).elim notQueued foreign
    · rintro ⟨same | member, different⟩
      · exact absurd same different
      · exact member
  · rw [if_neg unread, Stateful.pure_eq_ok] at done
    rcases done with ⟨_, rfl⟩
    refine ⟨tallied.congr ?_, fun kind => rfl⟩
    have queued := List.count_pos_iff.mp (Nat.pos_of_ne_zero unread)
    intro other
    rw [parts, iff_or_self]
    rintro rfl
    exact List.mem_append_left _ queued

/-- The next read takes place. -/
theorem Tallied.finishRead {current : List Outlet}
    (tallied : Tallied base progress (outlet :: queue) (outlet :: queue ++ current))
    (foreign : outlet ∉ current)
    (done : Scheduling.finishRead step outlet progress = .ok () after) :
    Tallied base after queue (queue ++ current) ∧ ∀ kind, after.counter Allocator.peakLive kind =
      progress.counter Allocator.peakLive kind := by
  rcases finishRead_eq_ok done with ⟨remaining, entry, _⟩
  have counted := tallied.counted outlet _ entry
  rw [List.count_cons_self, Nat.add_right_cancel_iff] at counted
  subst counted
  rw [finishRead_of_pending entry] at done
  have noted : Tallied base (Scheduling.afterRead step outlet (queue.count outlet) progress) queue
      (outlet :: queue ++ current) := tallied.afterRead
  exact noted.retire (fun other => by rw [List.cons_append, List.mem_cons]) foreign done

/-- A result of the node that runs is done with when the node is, unless it is read later. -/
theorem Tallied.reclaimUnread {current : List Outlet}
    (tallied : Tallied base progress queue (queue ++ outlet :: current))
    (foreign : outlet ∉ current)
    (known : ∃ count, progress.pending.get? outlet = some count)
    (done : Scheduling.reclaimUnread outlet progress = .ok () after) :
    Tallied base after queue (queue ++ current) ∧ ∀ kind, after.counter Allocator.peakLive kind =
      progress.counter Allocator.peakLive kind := by
  rcases known with ⟨count, entry⟩
  rw [reclaimUnread_of_pending entry, tallied.counted outlet count entry] at done
  refine tallied.retire (fun other => ?_) foreign done
  rw [List.mem_append, List.mem_cons, List.mem_append, or_left_comm]

/-! ## One node -/

theorem Tallied.reserveAll {outlets : List Outlet} (tallied : Tallied base progress queue needed)
    (distinct : outlets.Nodup)
    (fresh : ∀ outlet ∈ outlets, progress.buffers.get? outlet = none)
    (readers : ∀ outlet ∈ outlets, ∀ wire, g.wire outlet = .ok wire →
      (scheduledReaders scheduled wire).length = queue.count outlet)
    (done : outlets.forM (Scheduling.reserve g scheduled step final) progress = .ok () after) :
    Tallied base after queue (needed ++ outlets) ∧
      ∀ kind, progress.counter Allocator.live kind ≤ after.counter Allocator.live kind ∧
        after.counter Allocator.peakLive kind =
          max (progress.counter Allocator.peakLive kind) (after.counter Allocator.live kind) := by
  induction outlets generalizing progress needed with
  | nil =>
      rw [Stateful.forM_nil_eq_ok] at done
      subst done
      rw [List.append_nil]
      exact ⟨tallied, fun kind => ⟨Nat.le_refl _, (Nat.max_eq_left (tallied.peak kind)).symm⟩⟩
  | cons head rest inductionHypothesis =>
      rcases List.nodup_cons.mp distinct with ⟨headFresh, restDistinct⟩
      rcases Stateful.forM_cons_eq_ok.mp done with ⟨between, first, later⟩
      rcases tallied.reserve (fresh head List.mem_cons_self) (readers head List.mem_cons_self) first
        with ⟨betweenTallied, firstCounters⟩
      have restFresh : ∀ outlet ∈ rest, between.buffers.get? outlet = none := by
        intro outlet member
        rcases reserve_eq_ok first with ⟨_, _, _, _, _, _, _, _, _, buffers⟩
        have different : outlet ≠ head := fun same => headFresh (same ▸ member)
        rw [buffers, OutletMap.get?_insert_of_ne _ _ different]
        exact fresh outlet (List.mem_cons_of_mem _ member)
      rcases inductionHypothesis betweenTallied restDistinct restFresh
        (fun outlet member => readers outlet (List.mem_cons_of_mem _ member)) later
        with ⟨afterTallied, restCounters⟩
      refine ⟨afterTallied.congr ?_, ?_⟩
      · intro outlet
        simp only [List.mem_append, List.mem_cons]
        tauto
      · intro kind
        rcases firstCounters kind with ⟨firstLive, firstPeak⟩
        rcases restCounters kind with ⟨restLive, restPeak⟩
        omega

theorem Tallied.finishReads {outlets current : List Outlet}
    (tallied : Tallied base progress (outlets ++ queue) (outlets ++ queue ++ current))
    (foreign : ∀ outlet ∈ outlets, outlet ∉ current)
    (done : outlets.forM (Scheduling.finishRead step) progress = .ok () after) :
    Tallied base after queue (queue ++ current) ∧ ∀ kind, after.counter Allocator.peakLive kind =
      progress.counter Allocator.peakLive kind := by
  induction outlets generalizing progress with
  | nil =>
      rw [Stateful.forM_nil_eq_ok] at done
      subst done
      exact ⟨tallied, fun _ => rfl⟩
  | cons head rest inductionHypothesis =>
      rcases Stateful.forM_cons_eq_ok.mp done with ⟨between, first, later⟩
      rcases tallied.finishRead (foreign head List.mem_cons_self) first with
        ⟨betweenTallied, firstPeak⟩
      rcases inductionHypothesis betweenTallied
        (fun outlet member => foreign outlet (List.mem_cons_of_mem _ member)) later with
        ⟨afterTallied, restPeak⟩
      exact ⟨afterTallied, fun kind => (restPeak kind).trans (firstPeak kind)⟩

theorem Tallied.reclaimAllUnread {outlets : List Outlet}
    (tallied : Tallied base progress queue (queue ++ outlets)) (distinct : outlets.Nodup)
    (known : ∀ outlet ∈ outlets, ∃ count, progress.pending.get? outlet = some count)
    (done : outlets.forM Scheduling.reclaimUnread progress = .ok () after) :
    Tallied base after queue queue ∧ ∀ kind, after.counter Allocator.peakLive kind =
      progress.counter Allocator.peakLive kind := by
  induction outlets generalizing progress with
  | nil =>
      rw [Stateful.forM_nil_eq_ok] at done
      subst done
      rw [List.append_nil] at tallied
      exact ⟨tallied, fun _ => rfl⟩
  | cons head rest inductionHypothesis =>
      rcases List.nodup_cons.mp distinct with ⟨headFresh, restDistinct⟩
      rcases Stateful.forM_cons_eq_ok.mp done with ⟨between, first, later⟩
      rcases tallied.reclaimUnread headFresh (known head List.mem_cons_self) first with
        ⟨betweenTallied, firstPeak⟩
      have stillKnown : ∀ outlet ∈ rest, ∃ count, between.pending.get? outlet = some count := by
        intro outlet member
        rw [(reclaimUnread_tables first).2]
        exact known outlet (List.mem_cons_of_mem _ member)
      rcases inductionHypothesis betweenTallied restDistinct stillKnown later with
        ⟨afterTallied, restPeak⟩
      exact ⟨afterTallied, fun kind => (restPeak kind).trans (firstPeak kind)⟩

/-- The peak after a node takes in the bytes that are needed while it runs: those of what
it reads and of what is read later, and those of its own results. -/
theorem Tallied.runNode {id : Nat} {node : Node}
    (tallied : Tallied base progress (g.operands id ++ queue) (g.operands id ++ queue))
    (found : g.node? id = some node)
    (fresh : ∀ outlet : Outlet, outlet.node = id → progress.buffers.get? outlet = none)
    (readers : ∀ outlet wire, outlet.node = id → g.wire outlet = .ok wire →
      (scheduledReaders scheduled wire).length = (g.operands id ++ queue).count outlet)
    (foreign : ∀ outlet ∈ g.operands id, outlet.node ≠ id)
    (done : Scheduling.runNode g scheduled final step id progress = .ok () after) :
    Tallied base after queue queue ∧ ∀ kind, after.counter Allocator.peakLive kind =
      max (progress.counter Allocator.peakLive kind) (base kind + after.buffers.total
        (neededWeight kind (g.operands id ++ queue ++ outletsOf id node))) := by
  rcases runNode_eq_ok done with ⟨same, reserved, read, sameFound, reserving, reading, reclaiming⟩
  rcases Option.some.inj (found.symm.trans sameFound) with rfl
  have distinct := outletsOf_nodup id node
  rcases tallied.reserveAll distinct
    (fun outlet own => fresh outlet ((mem_outletsOf found).mp own).1)
    (fun outlet own wire => readers outlet wire ((mem_outletsOf found).mp own).1) reserving with
    ⟨reservedTallied, reservedCounters⟩
  rw [← Graph.operands_of_node? found] at reading
  rcases reservedTallied.finishReads (fun outlet member own =>
    foreign outlet member ((mem_outletsOf found).mp own).1) reading with ⟨readTallied, readPeak⟩
  have known : ∀ outlet ∈ outletsOf id node, ∃ count, read.pending.get? outlet = some count := by
    intro outlet own
    rcases (forM_reserve_eq_ok distinct reserving).2 outlet own with ⟨_, _, _, _, pending⟩
    rw [(forM_finishRead_eq_ok reading).2.1 outlet] at pending
    rcases Option.map_eq_some_iff.mp pending with ⟨count, entry, _⟩
    exact ⟨count, entry⟩
  rcases readTallied.reclaimAllUnread distinct known reclaiming with ⟨afterTallied, afterPeak⟩
  refine ⟨afterTallied, fun kind => ?_⟩
  have sameTotal : reserved.buffers.total
      (neededWeight kind (g.operands id ++ queue ++ outletsOf id node)) = after.buffers.total
      (neededWeight kind (g.operands id ++ queue ++ outletsOf id node)) := by
    apply OutletMap.total_congr
    intro outlet
    rw [OutletMap.share, OutletMap.share, (forM_reclaimUnread_eq_ok reclaiming).1,
      (forM_finishRead_eq_ok reading).1]
    cases reserved.buffers.get? outlet with
    | none => rfl
    | some buffer =>
        rw [Option.map_some, Option.elim_some, Option.elim_some]
        split
        · rcases extendTo_eq step buffer with ⟨last, extended, _⟩
          rw [extended]
          rfl
        · rfl
  rw [← sameTotal, ← reservedTallied.live, ← (reservedCounters kind).2, afterPeak, readPeak]

end

/-! ## Readers and lifetimes -/

section

open TensorCompiler.Graph

variable {id : Nat} {rest : List Nat} {node : Node} {outlet : Outlet} {between : Progress}

/-- A node that runs counts down the readers of what it reads. -/
theorem pending_of_runNode
    (done : Scheduling.runNode g scheduled final step id progress = .ok () after) :
    ∃ reserved : Progress,
      (∀ outlet : Outlet, outlet.node = id → ∀ wire, g.wire outlet = .ok wire →
        reserved.pending.get? outlet = some (scheduledReaders scheduled wire).length) ∧
      (∀ outlet : Outlet, outlet.node ≠ id →
        reserved.pending.get? outlet = progress.pending.get? outlet) ∧
      ∀ outlet, reserved.pending.get? outlet =
        (after.pending.get? outlet).map (· + (g.operands id).count outlet) := by
  rcases runNode_eq_ok done with ⟨node, reserved, read, found, reserving, reading, reclaiming⟩
  rcases forM_reserve_eq_ok (outletsOf_nodup id node) reserving with ⟨others, own⟩
  refine ⟨reserved, ?_, ?_, ?_⟩
  · intro outlet isOwn wire wired
    rcases own outlet ((mem_outletsOf found).mpr ⟨isOwn, wire, wired⟩) with
      ⟨same, _, sameWired, _, pending⟩
    rcases Except.ok.inj (wired.symm.trans sameWired) with rfl
    exact pending
  · intro outlet foreign
    exact (others outlet fun member => foreign ((mem_outletsOf found).mp member).1).2
  · intro outlet
    rw [operands_of_node? found, (forM_reclaimUnread_eq_ok reclaiming).2]
    exact (forM_finishRead_eq_ok reading).2.1 outlet

/-- A run counts down each reader of a value that is there already. -/
theorem pending_of_runNodes (elsewhere : outlet.node ∉ ids)
    (done : runNodes g scheduled final step ids progress = .ok () after) :
    progress.pending.get? outlet =
      (after.pending.get? outlet).map (· + (ids.flatMap g.operands).count outlet) := by
  induction ids generalizing progress step with
  | nil =>
      simp only [runNodes, Stateful.pure_eq_ok] at done
      rcases done with ⟨_, rfl⟩
      simp
  | cons id rest inductionHypothesis =>
      rcases not_or.mp (List.mem_cons.not.mp elsewhere) with ⟨notFirst, notLater⟩
      simp only [runNodes, Stateful.bind_eq_ok] at done
      rcases done with ⟨_, between, first, later⟩
      rcases pending_of_runNode first with ⟨reserved, _, others, counted⟩
      rw [← others outlet notFirst, counted, inductionHypothesis notLater later, Option.map_map,
        List.flatMap_cons, List.count_append]
      congr 1
      funext count
      simp only [Function.comp_apply]
      omega

/-- In a run that ends well, a value has as many counted readers as there are reads of it:
each counted reader reads, and a read that was not counted would have stopped the run. -/
theorem length_scheduledReaders_of_run {wire : Wire} (faithful : g.Faithful)
    (arranged : g.Arranged scheduled) (whole : scheduled = sequence ++ id :: rest)
    (own : outlet.node = id) (wired : g.wire outlet = .ok wire)
    (first : Scheduling.runNode g scheduled final step id progress = .ok () between)
    (later : runNodes g scheduled final (step + 1) rest between = .ok () after) :
    (scheduledReaders scheduled wire).length =
      (g.operands id ++ rest.flatMap g.operands).count outlet := by
  apply Nat.le_antisymm
  · rw [← List.flatMap_cons, ← arranged.count_operands whole own]
    exact faithful.length_scheduledReaders_le wired
  · have distinct := arranged.distinct
    rw [whole] at distinct
    have notLater : outlet.node ∉ rest := by
      rw [own]
      exact (List.nodup_cons.mp (List.nodup_append.mp distinct).2.1).1
    rcases pending_of_runNode first with ⟨reserved, counted, _, remaining⟩
    have sum := remaining outlet
    rw [counted outlet own wire wired, pending_of_runNodes notLater later, Option.map_map] at sum
    rcases Option.map_eq_some_iff.mp sum.symm with ⟨left, _, total⟩
    simp only [Function.comp_apply] at total
    rw [List.count_append]
    omega

theorem mem_operands_of_reads {inlet : Inlet} (reads : g.Reads inlet outlet) :
    outlet ∈ g.operands inlet.node := by
  rcases reads_iff.mp reads with ⟨node, found, entry⟩
  rw [operands_of_node? found]
  exact mem_producers.mpr ⟨inlet.index, entry⟩

theorem Records.first_le_last {buffer : Buffer}
    (records : Records g scheduled final sequence progress)
    (stored : progress.buffers.get? outlet = some buffer) (unpinned : buffer.pinned = false) :
    buffer.first ≤ buffer.last := by
  rcases ((records.entry outlet buffer stored).lastUnpinned unpinned).2 with read | ⟨last, _⟩
  · rcases records.served outlet buffer.last read with ⟨same, sameStored, bound⟩
    rcases Option.some.inj (stored.symm.trans sameStored) with rfl
    exact bound
  · exact Nat.le_of_eq last.symm

/-- A buffer that has been made outlasts a step exactly if it is pinned, read at this step
or later, or a result of the node that runs. -/
theorem Records.needed_iff {buffer : Buffer} (records : Records g scheduled final scheduled after)
    (distinct : scheduled.Nodup) (whole : scheduled = sequence ++ id :: rest)
    (inTime : sequence.length ≤ final) (found : g.node? id = some node)
    (stored : after.buffers.get? outlet = some buffer) (made : buffer.first ≤ sequence.length) :
    (buffer.pinned = true ∨
      outlet ∈ g.operands id ++ rest.flatMap g.operands ++ outletsOf id node) ↔
      sequence.length ≤ buffer.last := by
  have describes := records.entry outlet buffer stored
  have atStep : scheduled[sequence.length]? = some id := by
    rw [whole, List.getElem?_append_right (Nat.le_refl _), Nat.sub_self, List.getElem?_cons_zero]
  cases pinned : buffer.pinned with
  | true =>
      rw [describes.lastPinned pinned]
      exact iff_of_true (Or.inl rfl) inTime
  | false =>
      have lastUse := describes.lastUnpinned pinned
      have firstLast := records.first_le_last stored pinned
      simp only [Bool.false_eq_true, false_or]
      rw [← List.flatMap_cons, List.mem_append, List.mem_flatMap, mem_outletsOf found]
      constructor
      · rintro (⟨reader, member, reads⟩ | ⟨own, _⟩)
        · rcases mem_operands.mp reads with ⟨index, linkRead⟩
          rcases List.getElem?_of_mem member with ⟨offset, entry⟩
          refine Nat.le_trans (Nat.le_add_right _ offset)
            (lastUse.1 _ ⟨⟨reader, index⟩, ?_, linkRead⟩)
          rw [whole, List.getElem?_append_right (Nat.le_add_right _ _), Nat.add_sub_cancel_left]
          exact entry
        · have inside := (List.getElem?_eq_some_iff.mp atStep).1
          have sameStep : sequence.length = buffer.first := by
            apply (List.getElem?_inj inside distinct).mp
            rw [atStep, describes.first, own]
          omega
      · intro outlasts
        rcases lastUse.2 with ⟨inlet, atLast, reads⟩ | ⟨last, _⟩
        · rw [whole, List.getElem?_append_right outlasts] at atLast
          exact Or.inl ⟨inlet.node, List.mem_of_getElem? atLast, mem_operands_of_reads reads⟩
        · have sameStep : buffer.first = sequence.length := by omega
          rcases describes.wire with ⟨wire, wired, _⟩
          have atFirst := describes.first
          rw [sameStep, atStep] at atFirst
          exact Or.inr ⟨(Option.some.inj atFirst).symm, wire, wired⟩

/-- What is needed while a node runs is what the finished schedule calls alive. -/
theorem Records.total_neededWeight (records : Records g scheduled final scheduled after)
    (distinct : scheduled.Nodup) (whole : scheduled = sequence ++ id :: rest)
    (inTime : sequence.length ≤ final) (found : g.node? id = some node)
    (soFar : Records g scheduled final (sequence ++ [id]) between)
    (persist : ∀ outlet buffer, between.buffers.get? outlet = some buffer →
      ∃ last, after.buffers.get? outlet = some { buffer with last := last }) (kind : MemoryKind) :
    between.buffers.total
        (neededWeight kind (g.operands id ++ rest.flatMap g.operands ++ outletsOf id node)) =
      after.buffers.total (Schedule.liveWeight kind sequence.length) := by
  apply OutletMap.total_congr
  intro outlet
  cases stored : between.buffers.get? outlet with
  | some buffer =>
      rcases persist outlet buffer stored with ⟨last, nowStored⟩
      have made : buffer.first ≤ sequence.length := by
        have inside := (List.getElem?_eq_some_iff.mp (soFar.entry outlet buffer stored).first).1
        rw [List.length_append, List.length_singleton] at inside
        omega
      have lives := records.needed_iff distinct whole inTime found nowStored made
      rw [OutletMap.share_of_some stored, OutletMap.share_of_some nowStored, neededWeight,
        Schedule.liveWeight]
      simp only [made, true_and, ← lives]
  | none =>
      rw [OutletMap.share_of_none stored]
      cases nowStored : after.buffers.get? outlet with
      | none => rw [OutletMap.share_of_none nowStored]
      | some buffer =>
          rw [OutletMap.share_of_some nowStored, Schedule.liveWeight, if_neg]
          rintro ⟨_, made, _⟩
          have describes := records.entry outlet buffer nowStored
          rcases describes.wire with ⟨wire, wired, _⟩
          have early : outlet.node ∈ sequence ++ [id] := by
            have position := describes.first
            rw [whole, List.append_cons, List.getElem?_append_left (by simp; omega)] at position
            exact List.mem_of_getElem? position
          rcases (soFar.keys outlet).mpr ⟨early, wire, wired⟩ with ⟨_, impossible⟩
          rw [stored] at impossible
          cases impossible

/-- The peak of a run is the highest of what it started from and what is given out at each of
its steps: what was given out before the run, and what is alive at the step. -/
theorem Tallied.run {base : MemoryKind → Nat}
    (tallied : Tallied base progress (ids.flatMap g.operands) (ids.flatMap g.operands))
    (records : Records g scheduled final sequence progress) (faithful : g.Faithful)
    (arranged : g.Arranged scheduled) (whole : scheduled = sequence ++ ids)
    (inTime : scheduled.length ≤ final + 1)
    (done : runNodes g scheduled final sequence.length ids progress = .ok () after)
    (kind : MemoryKind) (limit : Nat) :
    after.counter Allocator.peakLive kind ≤ limit ↔
      progress.counter Allocator.peakLive kind ≤ limit ∧
        ∀ step, sequence.length ≤ step → step < scheduled.length →
          base kind + after.buffers.total (Schedule.liveWeight kind step) ≤ limit := by
  induction ids generalizing progress sequence with
  | nil =>
      simp only [runNodes, Stateful.pure_eq_ok] at done
      rcases done with ⟨_, rfl⟩
      rw [whole, List.append_nil]
      exact (and_iff_left fun step low high => absurd low (Nat.not_le.mpr high)).symm
  | cons id rest inductionHypothesis =>
      have distinct := arranged.distinct
      have allRecords : Records g scheduled final scheduled after := by
        have := records.run (whole ▸ distinct) done
        rwa [← whole] at this
      simp only [runNodes, Stateful.bind_eq_ok] at done
      rcases done with ⟨_, between, first, later⟩
      rcases runNode_tables first with ⟨node, found, tables⟩
      have fresh : id ∉ sequence := arranged.not_mem_left whole
      have betweenRecords := records.node fresh found tables
      have regrouped : scheduled = (sequence ++ [id]) ++ rest := by rw [whole, List.append_cons]
      have length : (sequence ++ [id]).length = sequence.length + 1 := List.length_append
      have foreign : ∀ outlet ∈ g.operands id, outlet.node ≠ id := by
        intro outlet reads own
        exact fresh (own ▸ arranged.ordered _ _ _ whole _ (needs_of_mem_operands reads))
      rw [List.flatMap_cons] at tallied
      rcases tallied.runNode found (fun _ => records.absent fresh)
        (fun outlet wire own wired => length_scheduledReaders_of_run faithful arranged whole own
          wired first later) foreign first with ⟨betweenTallied, peak⟩
      have persist := (kept_buffers between).run (fun outlet buffer stored => ⟨buffer.last, stored⟩)
        betweenRecords (regrouped ▸ distinct) (length ▸ later)
      have here : sequence.length < scheduled.length := by
        rw [whole, List.length_append, List.length_cons]
        omega
      rw [inductionHypothesis betweenTallied betweenRecords regrouped (length ▸ later), peak,
        allRecords.total_neededWeight distinct whole (by omega) found betweenRecords persist,
        Nat.max_le, length, and_assoc]
      refine and_congr_right fun _ => ?_
      constructor
      · rintro ⟨now, others⟩ step low high
        rcases Nat.eq_or_lt_of_le low with rfl | lower
        · exact now
        · exact others step lower high
      · intro every
        exact ⟨every _ (Nat.le_refl _) here, fun step low => every step (Nat.le_of_succ_le low)⟩

theorem tallied_start {allocators : Allocators}
    (reached : ∀ kind allocator, allocators.get kind = some allocator → allocator.Reached)
    (journal : Journal) (queue : List Outlet) :
    Tallied (allocators.counter Allocator.live) ⟨allocators, .empty, .empty, journal⟩
      queue queue where
  counted outlet count entry := by
    rw [OutletMap.get?_empty] at entry
    cases entry
  known outlet buffer stored := by
    rw [OutletMap.get?_empty] at stored
    cases stored
  owned outlet buffer stored := by
    rw [OutletMap.get?_empty] at stored
    cases stored
  live kind := rfl
  peak kind := by
    rw [Progress.counter, Allocators.counter, Allocators.counter]
    cases present : allocators.get kind with
    | none => exact Nat.le_refl _
    | some allocator => exact (reached kind allocator present).live_le_peak_le_mark.1

end

end

end Scheduling

/-! ## The figures of a schedule -/

open Scheduling

section

variable {g : Graph} {allocators : Allocators} {journal after : Journal} {schedule : Schedule}

/-- A schedule takes its figures from the allocators. -/
theorem Scheduling.Progress.figures_schedule (progress : Progress) (sequence : List Nat)
    (kind : MemoryKind) :
    (progress.schedule sequence).highWater.get kind = progress.counter Allocator.highWater kind ∧
      (progress.schedule sequence).peakLive.get kind = progress.counter Allocator.peakLive kind :=
  ⟨PerKind.get_tabulate _ _, PerKind.get_tabulate _ _⟩

/-- The figures of a schedule are those of its buffers, on top of what the allocators counted
before. -/
theorem Graph.usage_of_schedule (faithful : g.Faithful) (acyclic : g.Acyclic)
    (reached : ∀ kind allocator, allocators.get kind = some allocator → allocator.Reached)
    (done : g.schedule allocators journal = .ok schedule after) (kind : MemoryKind) :
    schedule.peakLive.get kind = max (allocators.counter Allocator.peakLive kind)
        (allocators.counter Allocator.live kind +
          (Finset.range schedule.sequence.length).sup (schedule.liveBytes kind)) ∧
      schedule.highWater.get kind =
        max (allocators.counter Allocator.highWater kind) (schedule.highestEnd kind) ∧
      schedule.peakLive.get kind ≤ schedule.highWater.get kind := by
  rcases Graph.exists_progress_of_schedule done with ⟨progress, rfl, finished⟩
  have arranged := arranged_postorder faithful acyclic
  have start : Records g g.postorder (progress.schedule g.postorder).final []
      ⟨allocators, .empty, .empty, journal⟩ := records_empty allocators journal
  rcases progress.figures_schedule g.postorder kind with ⟨mark, peak⟩
  refine ⟨?_, ?_, ?_⟩
  · rw [peak]
    have books := tallied_start reached journal (g.postorder.flatMap g.operands)
    have lower := books.peak kind
    apply eq_of_forall_ge_iff
    intro limit
    rw [books.run start faithful arranged rfl
      (by change _ ≤ g.postorder.length - 1 + 1; omega) finished kind limit, Nat.max_le]
    refine and_congr_right fun above => ?_
    have enough : allocators.counter Allocator.live kind ≤ limit := lower.trans above
    rw [← Nat.le_sub_iff_add_le' enough, Finset.sup_le_iff]
    simp only [List.length_nil, Nat.zero_le, forall_const, Finset.mem_range,
      Nat.le_sub_iff_add_le' enough, Schedule.liveBytes_eq_total]
    rfl
  · have marked := (kept_marked _).run (marked_start allocators journal) start g.postorder_nodup
      finished
    rw [mark]
    apply Nat.le_antisymm
    · rcases marked.attained kind with same | ⟨outlet, buffer, stored, isKind, ends⟩
      · exact same.trans_le (Nat.le_max_left _ _)
      · have listed : buffer ∈ (progress.schedule g.postorder).buffersOf kind :=
          Schedule.mem_buffersOf.mpr ⟨⟨outlet, stored⟩, isKind⟩
        rw [← ends]
        exact (Schedule.stop_le_highestEnd listed).trans (Nat.le_max_right _ _)
    · refine Nat.max_le.mpr ⟨marked.raised kind, Schedule.highestEnd_le.mpr ?_⟩
      intro buffer member
      rcases Schedule.mem_buffersOf.mp member with ⟨⟨outlet, stored⟩, rfl⟩
      exact marked.bound outlet buffer stored
  · rw [mark, peak, Progress.counter, Allocators.counter, Allocators.counter]
    cases present : progress.allocators.get kind with
    | none => exact Nat.le_refl _
    | some allocator =>
        have ended :=
          kept_reached.run reached start g.postorder_nodup finished kind allocator present
        exact ended.live_le_peak_le_mark.2

/-- Honest allocators keep to their capacities. -/
theorem Graph.mark_le_capacity_of_schedule (honest : allocators.Honest)
    (done : g.schedule allocators journal = .ok schedule after) {kind : MemoryKind} {size : Nat}
    (bounded : allocators.capacities.get kind = some size) :
    schedule.highWater.get kind ≤ size := by
  rcases Graph.exists_progress_of_schedule done with ⟨progress, rfl, finished⟩
  rcases (kept_gauges _ _).run ⟨marked_start allocators journal, gauges_start honest journal⟩
    (records_empty allocators journal) g.postorder_nodup finished with ⟨_, gauges⟩
  rw [(progress.figures_schedule g.postorder kind).1, Progress.counter, Allocators.counter]
  cases present : progress.allocators.get kind with
  | none => exact Nat.zero_le _
  | some allocator =>
      have within := (gauges kind allocator present).marked
      rwa [bounded] at within

/-- On a graph without cycles whose links agree, the peak of each memory is the most bytes given
out at one step, counting those that were given out before, unless it had a higher peak before.
Its mark is the end of its highest buffer, unless it was higher before.  Peak and mark come in
this order, and the mark is within the capacity if the allocators have been in honest use.  With
unused allocators peak and mark are those of the buffers alone. -/
theorem Graph.peak_and_mark_of_schedule (linked : g.Linked) (acyclic : g.Acyclic)
    (reached : ∀ kind allocator, allocators.get kind = some allocator → allocator.Reached)
    (done : g.schedule allocators journal = .ok schedule after) (kind : MemoryKind) :
    schedule.peakLive.get kind = max (allocators.counter Allocator.peakLive kind)
        (allocators.counter Allocator.live kind +
          (Finset.range schedule.sequence.length).sup (schedule.liveBytes kind)) ∧
      schedule.highWater.get kind =
        max (allocators.counter Allocator.highWater kind) (schedule.highestEnd kind) ∧
      schedule.peakLive.get kind ≤ schedule.highWater.get kind ∧
      (allocators.Honest → ∀ size, allocators.capacities.get kind = some size →
        schedule.highWater.get kind ≤ size) ∧
      (allocators.Unused →
        schedule.peakLive.get kind =
            (Finset.range schedule.sequence.length).sup (schedule.liveBytes kind) ∧
          schedule.highWater.get kind = schedule.highestEnd kind) := by
  rcases Graph.usage_of_schedule linked.faithful acyclic reached done kind with
    ⟨peak, mark, ordered⟩
  refine ⟨peak, mark, ordered, ?_, ?_⟩
  · intro honest size bounded
    exact Graph.mark_le_capacity_of_schedule honest done bounded
  · intro unused
    have zero : ∀ {count : Allocator → Nat}, (∀ owner capacity rule,
        count (.new owner capacity rule) = 0) → allocators.counter count kind = 0 :=
      fun fresh => unused.counter_eq_zero fresh kind
    rw [peak, mark, zero fun _ _ _ => rfl, zero fun _ _ _ => rfl, zero fun _ _ _ => rfl,
      Nat.zero_add, Nat.zero_max, Nat.zero_max]
    exact ⟨rfl, rfl⟩

end

/-- A memory of a hundred and forty-eight bytes, a hundred of which have been given out. -/
def Allocator.lent (kind : MemoryKind) : Allocator :=
  { kind := kind, rule := .dense, space := ⟨[⟨100, 148⟩], some 148, 100⟩, live := 100,
    peakLive := 100 }

/-- The same memory after the hundred bytes have come back. -/
def Allocator.returned (kind : MemoryKind) : Allocator :=
  { kind := kind, rule := .dense, space := ⟨[⟨0, 148⟩], some 148, 100⟩, peakLive := 100 }

theorem Allocator.honest_lent (kind : MemoryKind) : (lent kind).Honest [⟨0, 100⟩] := by
  have fits : ∀ size, some 148 = some size → size ≤ Word.largest := by
    rintro size ⟨⟩
    decide
  exact @Honest.allocate _ _ _ ⟨.u8, [100]⟩ _ (.new kind (some 148) .dense fits) rfl

theorem Allocator.honest_returned (kind : MemoryKind) : (returned kind).Honest [] :=
  .release (honest_lent kind) (List.mem_singleton_self _) rfl

def Allocators.lent : Allocators :=
  .tabulate fun kind => some (.lent kind)

def Allocators.returned : Allocators :=
  .tabulate fun kind => some (.returned kind)

theorem Allocators.honest_tabulate {memory : MemoryKind → Allocator} {held : List Block}
    (each : ∀ kind, (memory kind).Honest held) :
    Allocators.Honest (.tabulate fun kind => some (memory kind)) := by
  intro kind allocator present
  rw [PerKind.get_tabulate] at present
  exact ⟨held, Option.some.inj present ▸ each kind⟩

theorem Allocators.honest_lent : Allocators.lent.Honest :=
  honest_tabulate Allocator.honest_lent

/-- A hundred bytes of each memory are given out already.  The small graph needs forty-eight
more at once, which is just what is left. -/
theorem Graph.peak_and_mark_lent :
    ∃ schedule journal,
      Graph.rectified.schedule .lent #[] = .ok schedule journal ∧
      schedule.peakLive.get .main = 148 ∧ schedule.highWater.get .main = 148 ∧
      (Finset.range schedule.sequence.length).sup (schedule.liveBytes .main) = 48 ∧
      schedule.highestEnd .main = 148 := by
  have figures : (match Graph.rectified.schedule .lent #[] with
      | .ok schedule _ => some (schedule.peakLive.get .main, schedule.highWater.get .main)
      | .error _ _ => none) = some (148, 148) := by decide +kernel
  have valid := Graph.made_rectified.valid
  cases done : Graph.rectified.schedule .lent #[] with
  | error failure journal =>
      rw [done] at figures
      cases figures
  | ok schedule journal =>
      rw [done] at figures
      rcases Prod.mk.inj (Option.some.inj figures) with ⟨peakFigure, markFigure⟩
      rcases Graph.peak_and_mark_of_schedule valid.linked valid.acyclic
        Allocators.honest_lent.reached done .main with ⟨peak, mark, -⟩
      have before : Allocators.lent.counter Allocator.peakLive .main = 100 ∧
          Allocators.lent.counter Allocator.live .main = 100 ∧
          Allocators.lent.counter Allocator.highWater .main = 100 := by decide
      rw [peakFigure, before.1, before.2.1] at peak
      rw [markFigure, before.2.2] at mark
      exact ⟨schedule, journal, rfl, peakFigure, markFigure, by omega, by omega⟩

/-- Memories remember the hundred bytes that they got back.  Both figures of the small graph
are a hundred then, though its buffers end at forty-eight and no more bytes are alive at any
step. -/
theorem Graph.figures_exceed_buffers_returned :
    Graph.rectified.Linked ∧ Graph.rectified.Acyclic ∧ Allocators.returned.Honest ∧
      ∃ schedule journal,
        Graph.rectified.schedule .returned #[] = .ok schedule journal ∧
        schedule.peakLive.get .main = 100 ∧ schedule.highWater.get .main = 100 ∧
        (Finset.range schedule.sequence.length).sup (schedule.liveBytes .main) = 48 ∧
        schedule.highestEnd .main = 48 := by
  have figures : (match Graph.rectified.schedule .returned #[] with
      | .ok schedule _ => some (schedule.peakLive.get .main, schedule.highWater.get .main,
        (Finset.range schedule.sequence.length).sup (schedule.liveBytes .main),
        schedule.highestEnd .main)
      | .error _ _ => none) = some (100, 100, 48, 48) := by decide +kernel
  have valid := Graph.made_rectified.valid
  refine ⟨valid.linked, valid.acyclic, Allocators.honest_tabulate Allocator.honest_returned, ?_⟩
  cases done : Graph.rectified.schedule .returned #[] with
  | error failure journal =>
      rw [done] at figures
      cases figures
  | ok schedule journal =>
      rw [done] at figures
      simp only [Option.some.injEq, Prod.mk.injEq] at figures
      exact ⟨schedule, journal, rfl, figures⟩

end TensorCompiler
