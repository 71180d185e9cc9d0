import TensorCompiler.Proofs.Memory.Lending
import TensorCompiler.Proofs.Schedule.Placement
import TensorCompiler.Proofs.Schedule.Readers

namespace TensorCompiler
namespace Scheduling

open TensorCompiler.Graph

/-!
# Providing values with buffers

A value is denied a buffer if there is no memory for it, or if no gap in that memory is long
enough.  Otherwise it gets one, and every read and every return that is due later succeeds.

That is so because the books are in order.  The invariant goes along with three lists of
outlets: those whose blocks are lent at present, those of the node that runs, and the reads that
are yet to come, each as often as it will happen.  A block is lent exactly as long as its buffer
is pinned, belongs to the node that runs, or has a read to come.
-/

/-! ## Values that are denied a buffer -/

/-- The value at an outlet is denied a buffer.  There is no memory of its kind, or the buffers
in use leave no gap in the addresses of that memory that were free in the beginning. -/
inductive Denied (g : Graph) (allocators : Allocators) (inUse : Outlet → Buffer → Prop)
    (buffers : OutletMap Buffer) (outlet : Outlet) : Error → Prop
  | unserved {wire : Wire} {node : Node} (wired : g.wire outlet = .ok wire)
      (found : g.node? outlet.node = some node) (missing : allocators.get wire.memory = none) :
      Denied g allocators inUse buffers outlet (.noAllocator wire.memory node.name)
  | crowded {wire : Wire} {node : Node} {allocator : Allocator} {size : Nat}
      (wired : g.wire outlet = .ok wire) (found : g.node? outlet.node = some node)
      (served : allocators.get wire.memory = some allocator)
      (sized : allocator.sizeOf wire.type = .ok size) (nonempty : size ≠ 0)
      (noGap : ¬ allocator.HasGap (fun block => ∃ other buffer,
        buffers.get? other = some buffer ∧ buffer.kind = wire.memory ∧ buffer.block = block ∧
          inUse other buffer) size) :
      Denied g allocators inUse buffers outlet
        (.outOfMemory wire.memory node.name size (allocator.capacity.getD Word.largest))

section

variable {g : Graph} {allocators : Allocators} {inUse : Outlet → Buffer → Prop}
  {buffers : OutletMap Buffer} {outlet : Outlet} {error other : Error}

theorem Denied.unique (denied : Denied g allocators inUse buffers outlet error)
    (again : Denied g allocators inUse buffers outlet other) : error = other := by
  cases denied with
  | unserved wired found missing =>
      cases again with
      | unserved sameWired sameFound _ =>
          rcases Except.ok.inj (wired.symm.trans sameWired) with rfl
          rcases Option.some.inj (found.symm.trans sameFound) with rfl
          rfl
      | crowded sameWired _ served _ _ _ =>
          rcases Except.ok.inj (wired.symm.trans sameWired) with rfl
          simp [missing] at served
  | crowded wired found served sized _ _ =>
      cases again with
      | unserved sameWired _ missing =>
          rcases Except.ok.inj (wired.symm.trans sameWired) with rfl
          simp [missing] at served
      | crowded sameWired sameFound sameServed sameSized _ _ =>
          rcases Except.ok.inj (wired.symm.trans sameWired) with rfl
          rcases Option.some.inj (found.symm.trans sameFound) with rfl
          rcases Option.some.inj (served.symm.trans sameServed) with rfl
          rcases Except.ok.inj (sized.symm.trans sameSized) with rfl
          rfl

/-- A value that there is room for is not denied a buffer. -/
theorem not_denied {wire : Wire} {allocator : Allocator} {size : Nat}
    (wired : g.wire outlet = .ok wire) (served : allocators.get wire.memory = some allocator)
    (sized : allocator.sizeOf wire.type = .ok size)
    (room : ¬ (size ≠ 0 ∧ ¬ allocator.HasGap (fun block => ∃ other buffer,
      buffers.get? other = some buffer ∧ buffer.kind = wire.memory ∧ buffer.block = block ∧
        inUse other buffer) size)) :
    ¬ Denied g allocators inUse buffers outlet error := by
  intro denied
  cases denied with
  | unserved sameWired _ missing =>
      rcases Except.ok.inj (wired.symm.trans sameWired) with rfl
      simp [missing] at served
  | crowded sameWired _ sameServed sameSized nonempty noGap =>
      rcases Except.ok.inj (wired.symm.trans sameWired) with rfl
      rcases Option.some.inj (served.symm.trans sameServed) with rfl
      rcases Except.ok.inj (sized.symm.trans sameSized) with rfl
      exact room ⟨nonempty, noGap⟩

theorem Denied.exists_wire (denied : Denied g allocators inUse buffers outlet error) :
    ∃ wire, g.wire outlet = .ok wire := by
  cases denied with
  | unserved wired => exact ⟨_, wired⟩
  | crowded wired => exact ⟨_, wired⟩

/-- A value that is denied a buffer would be denied one if more buffers were in use. -/
theorem Denied.mono {others : Outlet → Buffer → Prop}
    (denied : Denied g allocators inUse buffers outlet error)
    (more : ∀ other buffer, buffers.get? other = some buffer →
      inUse other buffer → others other buffer) :
    Denied g allocators others buffers outlet error := by
  cases denied with
  | unserved wired found missing => exact .unserved wired found missing
  | crowded wired found served sized nonempty noGap =>
      refine .crowded wired found served sized nonempty fun gap => noGap ?_
      rcases gap with ⟨offset, free, apart⟩
      refine ⟨offset, free, ?_⟩
      rintro block ⟨other, buffer, stored, kind, rfl, used⟩
      exact apart _ ⟨other, buffer, stored, kind, rfl, more other buffer stored used⟩

end

/-! ## Single activities -/

section

variable {g : Graph} {scheduled : List Nat} {step final : Nat} {progress : Progress}
  {outlet : Outlet} {wire : Wire} {node : Node} {allocator rest : Allocator} {buffer : Buffer}

theorem reserve_of_allocate {block : Block} (wired : g.wire outlet = .ok wire)
    (present : progress.allocators.get wire.memory = some allocator)
    (given : allocator.allocate wire.type = .ok (some (block, rest))) :
    ∃ after, reserve g scheduled step final outlet progress = .ok () after ∧
      after.allocators = progress.allocators.set wire.memory (some rest) ∧
      after.pending = progress.pending.insert outlet (scheduledReaders scheduled wire).length ∧
      after.buffers =
        progress.buffers.insert outlet (newBuffer g scheduled step final outlet wire block) := by
  rcases wire_eq_ok.mp wired with ⟨node, found, -⟩
  let after : Progress := { progress with
    allocators := progress.allocators.set wire.memory (some rest)
    pending := progress.pending.insert outlet (scheduledReaders scheduled wire).length
    buffers := progress.buffers.insert outlet (newBuffer g scheduled step final outlet wire block)
    journal := progress.journal.push
      (.allocated node.name wire.memory block (isPinned g scheduled wire)) }
  refine ⟨after, ?_, rfl, rfl, rfl⟩
  unfold reserve
  rw [Stateful.bind_of_lift wired, Stateful.bind_of_lift (node_eq_ok.mpr found), Stateful.bind_get,
    present]
  dsimp only
  rw [Stateful.bind_of_lift given]
  rfl

theorem reserve_of_missing (wired : g.wire outlet = .ok wire)
    (found : g.node? outlet.node = some node)
    (missing : progress.allocators.get wire.memory = none) :
    reserve g scheduled step final outlet progress =
      .error (.refused (.noAllocator wire.memory node.name)) progress := by
  unfold reserve
  rw [Stateful.bind_of_lift wired, Stateful.bind_of_lift (node_eq_ok.mpr found), Stateful.bind_get,
    missing]
  rfl

theorem reserve_of_full {size : Nat} (wired : g.wire outlet = .ok wire)
    (found : g.node? outlet.node = some node)
    (present : progress.allocators.get wire.memory = some allocator)
    (sized : allocator.sizeOf wire.type = .ok size) (full : allocator.space.allocate size = none) :
    reserve g scheduled step final outlet progress =
      .error (.refused (.outOfMemory wire.memory node.name size
        (allocator.capacity.getD Word.largest))) progress := by
  have refused : allocator.allocate wire.type = .ok none := by
    simp only [Allocator.allocate, sized, Checked.bind_eq_ok]
    exact ⟨size, rfl, by rw [full]; rfl⟩
  unfold reserve
  rw [Stateful.bind_of_lift wired, Stateful.bind_of_lift (node_eq_ok.mpr found), Stateful.bind_get,
    present]
  dsimp only
  rw [Stateful.bind_of_lift refused]
  dsimp only
  rw [Stateful.bind_of_lift sized]
  rfl

theorem reclaim_of_pinned (stored : progress.buffers.get? outlet = some buffer)
    (pinned : buffer.pinned = true) : reclaim outlet progress = .ok () progress := by
  unfold reclaim
  rw [Stateful.bind_get, stored]
  dsimp only
  rw [if_pos pinned]
  rfl

theorem reclaim_of_release (stored : progress.buffers.get? outlet = some buffer)
    (unpinned : buffer.pinned = false)
    (present : progress.allocators.get buffer.kind = some allocator)
    (released : allocator.release buffer.block = .ok rest) :
    reclaim outlet progress = .ok ()
      { progress with allocators := progress.allocators.set buffer.kind (some rest) } := by
  unfold reclaim
  rw [Stateful.bind_get, stored]
  dsimp only
  rw [if_neg (by simp [unpinned]), present]
  dsimp only
  rw [Stateful.bind_of_lift released]
  rfl

theorem finishRead_of_pending {remaining : Nat}
    (known : progress.pending.get? outlet = some (remaining + 1)) :
    finishRead step outlet progress =
      (if remaining = 0 then reclaim outlet else pure ())
        (afterRead step outlet remaining progress) := by
  unfold finishRead
  rw [Stateful.bind_get, known]
  dsimp only
  rw [Stateful.bind_of_lift (Word.sub_eq_ok.mpr rfl)]
  rfl

theorem reclaimUnread_of_pending {count : Nat}
    (known : progress.pending.get? outlet = some count) :
    reclaimUnread outlet progress = (if count = 0 then reclaim outlet else pure ()) progress := by
  unfold reclaimUnread
  rw [Stateful.bind_get, known]
  simp only [Option.some.injEq]

end

/-! ## Blocks that are held -/

/-- The blocks of one memory kind that some outlets hold. -/
def blocksOf (buffers : OutletMap Buffer) (kind : MemoryKind) (held : List Outlet) : List Block :=
  held.filterMap fun outlet =>
    ((buffers.get? outlet).filter fun buffer => buffer.kind = kind).map Buffer.block

section

variable {buffers others : OutletMap Buffer} {kind : MemoryKind} {held : List Outlet}
  {outlet : Outlet} {buffer : Buffer}

theorem mem_blocksOf {block : Block} :
    block ∈ blocksOf buffers kind held ↔ ∃ outlet buffer, buffers.get? outlet = some buffer ∧
      buffer.kind = kind ∧ buffer.block = block ∧ outlet ∈ held := by
  simp only [blocksOf, List.mem_filterMap, Option.map_eq_some_iff, Option.filter_eq_some_iff,
    decide_eq_true_eq]
  constructor
  · rintro ⟨outlet, member, buffer, ⟨stored, sameKind⟩, sameBlock⟩
    exact ⟨outlet, buffer, stored, sameKind, sameBlock, member⟩
  · rintro ⟨outlet, buffer, stored, sameKind, sameBlock, member⟩
    exact ⟨outlet, member, buffer, ⟨stored, sameKind⟩, sameBlock⟩

theorem blocksOf_congr (same : ∀ outlet ∈ held,
      (others.get? outlet).map (fun buffer => (buffer.kind, buffer.block)) =
        (buffers.get? outlet).map fun buffer => (buffer.kind, buffer.block)) :
    blocksOf others kind held = blocksOf buffers kind held := by
  apply List.filterMap_congr
  intro outlet member
  have view := same outlet member
  cases now : others.get? outlet with
  | none =>
      rw [now] at view
      rw [Option.map_eq_none_iff.mp view.symm]
  | some other =>
      rw [now, Option.map_some] at view
      rcases Option.map_eq_some_iff.mp view.symm with ⟨buffer, before, pair⟩
      rcases Prod.mk.inj pair with ⟨sameKind, sameBlock⟩
      simp [before, Option.filter_some, sameKind, sameBlock, apply_ite]

theorem blocksOf_cons (stored : buffers.get? outlet = some buffer) :
    blocksOf buffers kind (outlet :: held) =
      if buffer.kind = kind then buffer.block :: blocksOf buffers kind held
      else blocksOf buffers kind held := by
  unfold blocksOf
  split
  · next same => simp [stored, Option.filter_some, same]
  · next different => simp [stored, Option.filter_some, different]

theorem blocksOf_insert (absent : outlet ∉ held) :
    blocksOf (buffers.insert outlet buffer) kind held = blocksOf buffers kind held := by
  apply blocksOf_congr
  intro other member
  have different : other ≠ outlet := fun same => absent (same ▸ member)
  rw [OutletMap.get?_insert_of_ne buffers buffer different]

theorem blocksOf_perm {moved : List Outlet} (same : held.Perm moved) :
    (blocksOf buffers kind held).Perm (blocksOf buffers kind moved) :=
  same.filterMap _

end

/-! ## The books -/

/-- A buffer is still needed: it is pinned, or it belongs to the node that runs, or it has a
read to come. -/
def Needed (current queue : List Outlet) (outlet : Outlet) (buffer : Buffer) : Prop :=
  buffer.pinned = true ∨ outlet ∈ queue ∨ outlet ∈ current

/-- The books of a schedule in the making are in order.  The memories have lent what is held,
and that is what is still needed; and the readers that are counted are the reads to come. -/
structure Furnished (allocators : Allocators) (progress : Progress)
    (held current queue : List Outlet) : Prop where
  unserved : ∀ kind, allocators.get kind = none → progress.allocators.get kind = none
  rooms : ∀ kind origin, allocators.get kind = some origin →
    ∃ now, progress.allocators.get kind = some now ∧
      origin.Lends now (blocksOf progress.buffers kind held)
  distinct : held.Nodup
  stored : ∀ outlet ∈ held, ∃ buffer, progress.buffers.get? outlet = some buffer
  exact : ∀ outlet buffer, progress.buffers.get? outlet = some buffer →
    (outlet ∈ held ↔ Needed current queue outlet buffer)
  housed : ∀ outlet buffer, progress.buffers.get? outlet = some buffer →
    ∃ origin, allocators.get buffer.kind = some origin
  known : ∀ outlet count, progress.pending.get? outlet = some count →
    count = queue.count outlet ∧ ∃ buffer, progress.buffers.get? outlet = some buffer

section

variable {g : Graph} {allocators : Allocators} {progress : Progress}
  {held current queue : List Outlet} {step final : Nat} {scheduled : List Nat} {outlet : Outlet}

theorem furnished_start {journal : Journal}
    (reached : ∀ kind allocator, allocators.get kind = some allocator → allocator.Reached) :
    Furnished allocators ⟨allocators, .empty, .empty, journal⟩ [] [] queue where
  unserved _ missing := missing
  rooms kind origin present := ⟨origin, present, (reached kind origin present).lends⟩
  distinct := List.nodup_nil
  stored := List.forall_mem_nil _
  exact outlet buffer stored := by simp at stored
  housed outlet buffer stored := by simp at stored
  known outlet count entry := by simp at entry

/-- Which outlets are told to belong to the node that runs is a matter of what is needed. -/
theorem Furnished.regroup {others : List Outlet}
    (furnished : Furnished allocators progress held current queue)
    (same : ∀ outlet buffer, progress.buffers.get? outlet = some buffer →
      (Needed current queue outlet buffer ↔ Needed others queue outlet buffer)) :
    Furnished allocators progress held others queue :=
  { furnished with
    exact := fun outlet buffer stored =>
      (furnished.exact outlet buffer stored).trans (same outlet buffer stored) }

/-- One memory changes and lends new blocks; the others lend what they lent. -/
theorem Furnished.rooms_set {kind : MemoryKind} {origin rest : Allocator}
    (blocks : MemoryKind → List Block)
    (furnished : Furnished allocators progress held current queue)
    (served : allocators.get kind = some origin) (lends : origin.Lends rest (blocks kind))
    (elsewhere : ∀ other, other ≠ kind →
      (blocksOf progress.buffers other held).Perm (blocks other)) :
    (∀ other, allocators.get other = none →
      (progress.allocators.set kind (some rest)).get other = none) ∧
    ∀ other start, allocators.get other = some start → ∃ now,
      (progress.allocators.set kind (some rest)).get other = some now ∧
        start.Lends now (blocks other) := by
  constructor
  · intro other missing
    have different : other ≠ kind := by
      rintro rfl
      rw [missing] at served
      cases served
    rw [PerKind.get_set, if_neg different]
    exact furnished.unserved other missing
  · intro other start present
    rw [PerKind.get_set]
    by_cases same : other = kind
    · subst same
      rcases Option.some.inj (served.symm.trans present) with rfl
      exact ⟨rest, if_pos rfl, lends⟩
    · rw [if_neg same]
      rcases furnished.rooms other start present with ⟨now, nowPresent, nowLends⟩
      exact ⟨now, nowPresent, nowLends.perm (elsewhere other same)⟩

/-- The blocks that a memory has lent are those of the buffers that are still needed. -/
theorem Furnished.mem_blocksOf_iff {kind : MemoryKind}
    (furnished : Furnished allocators progress held current queue) (block : Block) :
    block ∈ blocksOf progress.buffers kind held ↔ ∃ other buffer,
      progress.buffers.get? other = some buffer ∧ buffer.kind = kind ∧ buffer.block = block ∧
        Needed current queue other buffer := by
  rw [mem_blocksOf]
  refine exists_congr fun other => exists_congr fun buffer => and_congr_right fun stored => ?_
  rw [furnished.exact other buffer stored]

/-! ## Reserving -/

/-- A new buffer is held. -/
theorem Furnished.store {after : Progress} {wire : Wire} {origin rest : Allocator} {block : Block}
    (furnished : Furnished allocators progress held current queue)
    (served : allocators.get wire.memory = some origin)
    (lends : origin.Lends rest (block :: blocksOf progress.buffers wire.memory held))
    (absent : progress.buffers.get? outlet = none)
    (readers : (scheduledReaders scheduled wire).length = queue.count outlet)
    (nowAllocators : after.allocators = progress.allocators.set wire.memory (some rest))
    (nowPending : after.pending =
      progress.pending.insert outlet (scheduledReaders scheduled wire).length)
    (nowBuffers : after.buffers =
      progress.buffers.insert outlet (newBuffer g scheduled step final outlet wire block)) :
    Furnished allocators after (outlet :: held) (outlet :: current) queue := by
  have unheld : outlet ∉ held := fun member => by
    rcases furnished.stored outlet member with ⟨buffer, stored⟩
    rw [absent] at stored
    cases stored
  have newStored := nowBuffers ▸ OutletMap.get?_insert_self progress.buffers outlet _
  have oldStored : ∀ other, other ≠ outlet →
      after.buffers.get? other = progress.buffers.get? other := by
    intro other different
    rw [nowBuffers, OutletMap.get?_insert_of_ne _ _ different]
  have nowHeld : ∀ kind, blocksOf after.buffers kind (outlet :: held) =
      if wire.memory = kind then block :: blocksOf progress.buffers kind held
      else blocksOf progress.buffers kind held := by
    intro kind
    rw [blocksOf_cons newStored, nowBuffers, blocksOf_insert unheld]
    rfl
  have nowLends : origin.Lends rest (blocksOf after.buffers wire.memory (outlet :: held)) := by
    rw [nowHeld, if_pos rfl]
    exact lends
  have elsewhere : ∀ kind, kind ≠ wire.memory → (blocksOf progress.buffers kind held).Perm
      (blocksOf after.buffers kind (outlet :: held)) := by
    intro kind different
    rw [nowHeld, if_neg (Ne.symm different)]
  rcases furnished.rooms_set (blocksOf after.buffers · (outlet :: held)) served nowLends elsewhere
    with ⟨unserved, rooms⟩
  rw [← nowAllocators] at unserved rooms
  constructor
  case unserved => exact unserved
  case rooms => exact rooms
  case distinct => exact List.nodup_cons.mpr ⟨unheld, furnished.distinct⟩
  case stored =>
    intro other member
    rcases List.mem_cons.mp member with rfl | earlier
    · exact ⟨_, newStored⟩
    · rw [oldStored other fun same => unheld (same ▸ earlier)]
      exact furnished.stored other earlier
  case exact =>
    intro other buffer stored
    by_cases same : other = outlet
    · simp [same, Needed]
    · rw [oldStored other same] at stored
      simp only [List.mem_cons, same, false_or, Needed]
      exact furnished.exact other buffer stored
  case housed =>
    intro other buffer stored
    by_cases same : other = outlet
    · subst same
      rcases Option.some.inj (stored.symm.trans newStored) with rfl
      exact ⟨origin, served⟩
    · rw [oldStored other same] at stored
      exact furnished.housed other buffer stored
  case known =>
    intro other count entry
    rw [nowPending] at entry
    rcases OutletMap.get?_insert_eq_some.mp entry with ⟨rfl, rfl⟩ | ⟨different, before⟩
    · exact ⟨readers, _, newStored⟩
    · rw [oldStored other different]
      exact furnished.known other count before

/-- What has to be known about a value that is about to be made. -/
structure Expected (g : Graph) (allocators : Allocators) (scheduled : List Nat)
    (queue : List Outlet) (outlet : Outlet) (node : Node) (wire : Wire) : Prop where
  found : g.node? outlet.node = some node
  wired : g.wire outlet = .ok wire
  sized : ∀ origin, allocators.get wire.memory = some origin →
    ∃ size, origin.sizeOf wire.type = .ok size
  readers : (scheduledReaders scheduled wire).length = queue.count outlet

/-- A value gets a buffer unless it is denied one. -/
theorem Furnished.reserve {node : Node} {wire : Wire}
    (furnished : Furnished allocators progress held current queue)
    (expected : Expected g allocators scheduled queue outlet node wire)
    (absent : progress.buffers.get? outlet = none) :
    (∃ after, Scheduling.reserve g scheduled step final outlet progress = .ok () after ∧
      Furnished allocators after (outlet :: held) (outlet :: current) queue ∧
      ∀ error, ¬ Denied g allocators (Needed current queue) progress.buffers outlet error) ∨
    ∃ error, Scheduling.reserve g scheduled step final outlet progress =
        .error (.refused error) progress ∧
      Denied g allocators (Needed current queue) progress.buffers outlet error := by
  rcases expected with ⟨found, wired, sized, readers⟩
  cases served : allocators.get wire.memory with
  | none =>
      exact Or.inr ⟨_, reserve_of_missing wired found (furnished.unserved _ served),
        .unserved wired found served⟩
  | some origin =>
      rcases sized origin served with ⟨size, sizeKnown⟩
      rcases furnished.rooms wire.memory origin served with ⟨now, present, lends⟩
      have refused : now.space.allocate size = none ↔ size ≠ 0 ∧
          ¬ origin.HasGap (fun block => ∃ other buffer,
            progress.buffers.get? other = some buffer ∧ buffer.kind = wire.memory ∧
              buffer.block = block ∧ Needed current queue other buffer) size := by
        rw [lends.allocate_eq_none_iff]
        simp only [furnished.mem_blocksOf_iff]
      cases given : now.space.allocate size with
      | none =>
          rcases refused.mp given with ⟨nonempty, noGap⟩
          have sizedNow : now.sizeOf wire.type = .ok size := by
            rw [← sizeKnown, Allocator.sizeOf, Allocator.sizeOf, lends.rule]
          refine Or.inr ⟨_, reserve_of_full wired found present sizedNow given, ?_⟩
          rw [lends.capacity]
          exact .crowded wired found served sizeKnown nonempty noGap
      | some answer =>
          rcases answer with ⟨block, space⟩
          rcases lends.allocate sizeKnown given with ⟨rest, allocated, nowLends⟩
          rcases reserve_of_allocate wired present allocated with
            ⟨after, done, nowAllocators, nowPending, nowBuffers⟩
          refine Or.inl ⟨after, done, ?_, ?_⟩
          · exact furnished.store served nowLends absent readers nowAllocators nowPending nowBuffers
          · intro error
            apply not_denied wired served sizeKnown
            rw [← refused, given]
            exact Option.some_ne_none _

theorem Furnished.reserve_of_ok {node : Node} {wire : Wire} {after : Progress}
    (furnished : Furnished allocators progress held current queue)
    (expected : Expected g allocators scheduled queue outlet node wire)
    (absent : progress.buffers.get? outlet = none)
    (done : Scheduling.reserve g scheduled step final outlet progress = .ok () after) :
    Furnished allocators after (outlet :: held) (outlet :: current) queue := by
  rcases furnished.reserve expected absent with ⟨same, again, nowFurnished, -⟩ | ⟨_, stopped, -⟩
  · rcases EStateM.Result.ok.inj (done.symm.trans again) with ⟨-, rfl⟩
    exact nowFurnished
  · rw [done] at stopped
    cases stopped

/-- Reserving fails exactly if a buffer is denied. -/
theorem Furnished.failure?_reserve {node : Node} {wire : Wire} {failure : Failure}
    (furnished : Furnished allocators progress held current queue)
    (expected : Expected g allocators scheduled queue outlet node wire)
    (absent : progress.buffers.get? outlet = none) :
    Stateful.failure? (Scheduling.reserve g scheduled step final outlet) progress = some failure ↔
      ∃ error, failure = .refused error ∧
        Denied g allocators (Needed current queue) progress.buffers outlet error := by
  rcases furnished.reserve expected absent with ⟨after, done, -, never⟩ | ⟨error, stopped, denied⟩
  · rw [Stateful.failure?_eq_none.mpr ⟨(), after, done⟩]
    refine iff_of_false (Option.some_ne_none _).symm ?_
    rintro ⟨error, -, denied⟩
    exact never error denied
  · rw [Stateful.failure?_of_error stopped]
    constructor
    · intro same
      exact ⟨error, (Option.some.inj same).symm, denied⟩
    · rintro ⟨other, rfl, again⟩
      rw [denied.unique again]

/-- Values that are made one after another are all held afterwards. -/
theorem Furnished.reserveAll {outlets : List Outlet} {after : Progress}
    (furnished : Furnished allocators progress held current queue) (distinct : outlets.Nodup)
    (absent : ∀ outlet ∈ outlets, progress.buffers.get? outlet = none)
    (expected : ∀ outlet ∈ outlets, ∃ node wire,
      Expected g allocators scheduled queue outlet node wire)
    (done : outlets.forM (Scheduling.reserve g scheduled step final) progress = .ok () after) :
    ∃ nowHeld, Furnished allocators after nowHeld (outlets.reverse ++ current) queue := by
  induction outlets generalizing progress held current with
  | nil =>
      rw [Stateful.forM_nil_eq_ok] at done
      exact ⟨held, done ▸ furnished⟩
  | cons outlet rest inductionHypothesis =>
      rcases List.nodup_cons.mp distinct with ⟨isFirst, restDistinct⟩
      rcases Stateful.forM_cons_eq_ok.mp done with ⟨between, first, later⟩
      rcases expected outlet List.mem_cons_self with ⟨node, wire, known⟩
      have nowFurnished := furnished.reserve_of_ok known (absent outlet List.mem_cons_self) first
      have stillAbsent : ∀ other ∈ rest, between.buffers.get? other = none := by
        intro other member
        rcases reserve_eq_ok first with ⟨_, _, _, _, _, _, _, _, _, buffers⟩
        have different : other ≠ outlet := fun same => isFirst (same ▸ member)
        rw [buffers, OutletMap.get?_insert_of_ne _ _ different]
        exact absent other (List.mem_cons_of_mem _ member)
      rw [List.reverse_cons, List.append_assoc]
      exact inductionHypothesis nowFurnished restDistinct stillAbsent
        (fun other member => expected other (List.mem_cons_of_mem _ member)) later

/-! ## Reading and returning -/

theorem Furnished.afterRead {count : Nat}
    (furnished : Furnished allocators progress held current (outlet :: queue))
    (known : progress.pending.get? outlet = some count) :
    Furnished allocators (afterRead step outlet (queue.count outlet) progress) held
      (outlet :: current) queue where
  unserved := furnished.unserved
  rooms kind origin present := by
    rcases furnished.rooms kind origin present with ⟨now, nowPresent, lends⟩
    refine ⟨now, nowPresent, ?_⟩
    rw [blocksOf_congr]
    · exact lends
    · intro other member
      rcases furnished.stored other member with ⟨buffer, stored⟩
      rcases exists_afterRead (queue.count outlet) stored with ⟨last, nowStored⟩
      rw [nowStored, stored]
      rfl
  distinct := furnished.distinct
  stored other member := by
    rcases furnished.stored other member with ⟨buffer, stored⟩
    rcases exists_afterRead (queue.count outlet) stored with ⟨last, nowStored⟩
    exact ⟨_, nowStored⟩
  exact other buffer nowStored := by
    rcases exists_before_afterRead nowStored with ⟨earlier, last, stored, rfl, -⟩
    rw [furnished.exact other earlier stored]
    simp only [Needed, List.mem_cons, or_assoc, or_left_comm]
  housed other buffer nowStored := by
    rcases exists_before_afterRead nowStored with ⟨earlier, last, stored, rfl, -⟩
    exact furnished.housed other earlier stored
  known other left entry := by
    change (progress.pending.insert outlet (queue.count outlet)).get? other = some left at entry
    obtain ⟨counted, buffer, stored⟩ : left = queue.count other ∧
        ∃ buffer, progress.buffers.get? other = some buffer := by
      rcases OutletMap.get?_insert_eq_some.mp entry with ⟨rfl, rfl⟩ | ⟨different, earlier⟩
      · exact ⟨rfl, (furnished.known other count known).2⟩
      · have before := furnished.known other left earlier
        rwa [List.count_cons_of_ne (Ne.symm different)] at before
    rcases exists_afterRead (queue.count outlet) stored with ⟨last, nowStored⟩
    exact ⟨counted, _, nowStored⟩

/-- A buffer that is needed no more goes back. -/
theorem Furnished.release {buffer : Buffer}
    (furnished : Furnished allocators progress held (outlet :: current) queue)
    (stored : progress.buffers.get? outlet = some buffer) (unpinned : buffer.pinned = false)
    (unread : outlet ∉ queue) (foreign : outlet ∉ current) :
    ∃ after, Scheduling.reclaim outlet progress = .ok () after ∧
      Furnished allocators after (held.erase outlet) current queue := by
  rcases furnished.housed outlet buffer stored with ⟨origin, served⟩
  rcases furnished.rooms buffer.kind origin served with ⟨now, present, lends⟩
  have member : outlet ∈ held :=
    (furnished.exact outlet buffer stored).mpr (Or.inr (Or.inr List.mem_cons_self))
  have blocks : ∀ kind, (blocksOf progress.buffers kind held).Perm
      (if buffer.kind = kind then
        buffer.block :: blocksOf progress.buffers kind (held.erase outlet)
      else blocksOf progress.buffers kind (held.erase outlet)) := by
    intro kind
    rw [← blocksOf_cons stored]
    exact blocksOf_perm (List.perm_cons_erase member)
  have owned := lends.perm (blocks buffer.kind)
  rw [if_pos rfl] at owned
  rcases owned.release with ⟨rest, released, restLends⟩
  have elsewhere : ∀ kind, kind ≠ buffer.kind → (blocksOf progress.buffers kind held).Perm
      (blocksOf progress.buffers kind (held.erase outlet)) := by
    intro kind different
    have kept := blocks kind
    rwa [if_neg (Ne.symm different)] at kept
  rcases furnished.rooms_set (blocksOf progress.buffers · (held.erase outlet)) served restLends
    elsewhere with ⟨unserved, rooms⟩
  refine ⟨_, reclaim_of_release stored unpinned present released, unserved, rooms,
    furnished.distinct.erase outlet,
    fun other kept => furnished.stored other (List.mem_of_mem_erase kept), ?_,
    furnished.housed, furnished.known⟩
  intro other otherBuffer otherStored
  by_cases same : other = outlet
  · subst same
    rcases Option.some.inj (stored.symm.trans otherStored) with rfl
    refine iff_of_false furnished.distinct.not_mem_erase ?_
    simp [Needed, unpinned, unread, foreign]
  · rw [List.mem_erase_of_ne same, furnished.exact other otherBuffer otherStored]
    simp only [Needed, List.mem_cons, same, false_or]

/-- An outlet with no reads to come gives its buffer back, unless that is pinned. -/
theorem Furnished.settle {count : Nat}
    (furnished : Furnished allocators progress held (outlet :: current) queue)
    (known : progress.pending.get? outlet = some count) (foreign : outlet ∉ current) :
    ∃ after stillHeld,
      (if count = 0 then Scheduling.reclaim outlet else pure ()) progress = .ok () after ∧
      Furnished allocators after stillHeld current queue := by
  rcases furnished.known outlet count known with ⟨rfl, buffer, stored⟩
  have kept (needed : buffer.pinned = true ∨ outlet ∈ queue) :
      Furnished allocators progress held current queue := by
    refine furnished.regroup fun other otherBuffer otherStored => ?_
    by_cases same : other = outlet
    · subst same
      rcases Option.some.inj (stored.symm.trans otherStored) with rfl
      rcases needed with pinned | queued
      · exact iff_of_true (Or.inl pinned) (Or.inl pinned)
      · exact iff_of_true (Or.inr (Or.inl queued)) (Or.inr (Or.inl queued))
    · simp only [Needed, List.mem_cons, same, false_or]
  by_cases unread : queue.count outlet = 0
  · rw [if_pos unread]
    cases pinned : buffer.pinned with
    | true => exact ⟨progress, held, reclaim_of_pinned stored pinned, kept (Or.inl pinned)⟩
    | false =>
        rcases furnished.release stored pinned (List.count_eq_zero.mp unread) foreign with
          ⟨after, done, nowFurnished⟩
        exact ⟨after, _, done, nowFurnished⟩
  · rw [if_neg unread]
    exact ⟨progress, held, rfl, kept (Or.inr (List.count_pos_iff.mp (Nat.pos_of_ne_zero unread)))⟩

/-- The next read takes place. -/
theorem Furnished.finishRead {count : Nat}
    (furnished : Furnished allocators progress held current (outlet :: queue))
    (known : progress.pending.get? outlet = some count) (foreign : outlet ∉ current) :
    ∃ after stillHeld, Scheduling.finishRead step outlet progress = .ok () after ∧
      Furnished allocators after stillHeld current queue := by
  have counted := (furnished.known outlet count known).1
  rw [List.count_cons_self] at counted
  rw [finishRead_of_pending (counted ▸ known)]
  exact (furnished.afterRead known).settle (OutletMap.get?_insert_self _ _ _) foreign

/-- A result of the node that runs goes back at once if nobody reads it. -/
theorem Furnished.reclaimUnread {count : Nat}
    (furnished : Furnished allocators progress held (outlet :: current) queue)
    (known : progress.pending.get? outlet = some count) (foreign : outlet ∉ current) :
    ∃ after stillHeld, Scheduling.reclaimUnread outlet progress = .ok () after ∧
      Furnished allocators after stillHeld current queue := by
  rw [reclaimUnread_of_pending known]
  exact furnished.settle known foreign

theorem Furnished.finishReads {outlets : List Outlet}
    (furnished : Furnished allocators progress held current (outlets ++ queue))
    (known : ∀ outlet ∈ outlets, ∃ count, progress.pending.get? outlet = some count)
    (foreign : ∀ outlet ∈ outlets, outlet ∉ current) :
    ∃ after stillHeld, outlets.forM (Scheduling.finishRead step) progress = .ok () after ∧
      Furnished allocators after stillHeld current queue := by
  induction outlets generalizing progress held with
  | nil => exact ⟨progress, held, rfl, furnished⟩
  | cons outlet rest inductionHypothesis =>
      rcases known outlet List.mem_cons_self with ⟨count, isKnown⟩
      rcases furnished.finishRead isKnown (foreign outlet List.mem_cons_self) with
        ⟨between, stillHeld, first, nowFurnished⟩
      have stillKnown : ∀ other ∈ rest, ∃ count, between.pending.get? other = some count := by
        intro other member
        rcases finishRead_tables first with ⟨-, remaining, -, pending⟩
        rw [pending, OutletMap.get?_insert]
        split
        · exact ⟨_, rfl⟩
        · exact known other (List.mem_cons_of_mem _ member)
      rcases inductionHypothesis nowFurnished stillKnown
        (fun other member => foreign other (List.mem_cons_of_mem _ member)) with
        ⟨after, finallyHeld, others, allRead⟩
      exact ⟨after, finallyHeld, Stateful.forM_cons_eq_ok.mpr ⟨between, first, others⟩, allRead⟩

theorem Furnished.reclaimAllUnread {outlets : List Outlet}
    (furnished : Furnished allocators progress held outlets queue) (distinct : outlets.Nodup)
    (known : ∀ outlet ∈ outlets, ∃ count, progress.pending.get? outlet = some count) :
    ∃ after stillHeld, outlets.forM Scheduling.reclaimUnread progress = .ok () after ∧
      Furnished allocators after stillHeld [] queue := by
  induction outlets generalizing progress held with
  | nil => exact ⟨progress, held, rfl, furnished⟩
  | cons outlet rest inductionHypothesis =>
      rcases List.nodup_cons.mp distinct with ⟨isFirst, restDistinct⟩
      rcases known outlet List.mem_cons_self with ⟨count, isKnown⟩
      rcases furnished.reclaimUnread isKnown isFirst with ⟨between, stillHeld, first, nowFurnished⟩
      have stillKnown : ∀ other ∈ rest, ∃ count, between.pending.get? other = some count := by
        intro other member
        rw [(reclaimUnread_tables first).2]
        exact known other (List.mem_cons_of_mem _ member)
      rcases inductionHypothesis nowFurnished restDistinct stillKnown with
        ⟨after, finallyHeld, others, allReturned⟩
      exact ⟨after, finallyHeld, Stateful.forM_cons_eq_ok.mpr ⟨between, first, others⟩, allReturned⟩

end

end Scheduling
end TensorCompiler
