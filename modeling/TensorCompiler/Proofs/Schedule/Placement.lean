import TensorCompiler.Proofs.Schedule.Lifetimes

namespace TensorCompiler
namespace Scheduling

/-!
# Placement

While the scheduler runs, every buffer is either held, and then its bytes are
not free, or it has been returned, and then nobody will read it again and its
lifetime is over.  A block is given out at the beginning of a step and returned
at its end, so a byte can pass from one buffer to another only after the last
step of the first.

Which buffers are held is not written down anywhere in the progress: between
the reads of a node and the return of its own unread results a buffer without
readers may be in either state.  The invariant therefore speaks about a set of
held buffers that is carried along.
-/

/-- The blocks of a schedule in the making are in order.  The buffers outside
`held` have been returned before step `limit`; `step` is the one that is being
scheduled. -/
structure Placed (progress : Progress) (held : Outlet → Prop) (step limit : Nat) : Prop where
  wellFormed : ∀ kind allocator, progress.allocators.get kind = some allocator →
    allocator.space.WellFormed
  known : ∀ outlet count, progress.pending.get? outlet = some count →
    ∃ buffer, progress.buffers.get? outlet = some buffer
  fits : ∀ outlet buffer, progress.buffers.get? outlet = some buffer → buffer.block.Fits
  current : ∀ outlet buffer, progress.buffers.get? outlet = some buffer →
    buffer.first ≤ step ∧
      (buffer.pinned = false → buffer.first ≤ buffer.last ∧ buffer.last ≤ step)
  taken : ∀ outlet buffer, progress.buffers.get? outlet = some buffer → held outlet →
    ∃ allocator, progress.allocators.get buffer.kind = some allocator ∧
      ∀ address, buffer.block.Covers address → ¬ allocator.space.Free address
  spent : ∀ outlet buffer, progress.buffers.get? outlet = some buffer → ¬ held outlet →
    buffer.pinned = false ∧ progress.pending.get? outlet = some 0 ∧ buffer.last < limit
  returned : ∀ outlet buffer, progress.buffers.get? outlet = some buffer → ¬ held outlet →
    buffer.first = step → ∀ allocator, progress.allocators.get buffer.kind = some allocator →
      ∀ address, buffer.block.Covers address → allocator.space.Free address
  apart : ∀ outlet other buffer otherBuffer, outlet ≠ other →
    progress.buffers.get? outlet = some buffer →
    progress.buffers.get? other = some otherBuffer → buffer.kind = otherBuffer.kind →
    buffer.block.Meets otherBuffer.block →
      (¬ held outlet ∧ buffer.last < otherBuffer.first) ∨
        (¬ held other ∧ otherBuffer.last < buffer.first)

section

variable {progress after : Progress} {held : Outlet → Prop} {step limit : Nat}

/-- The invariant does not look at the journal. -/
theorem Placed.congr (placed : Placed progress held step limit)
    (allocators : after.allocators = progress.allocators)
    (pending : after.pending = progress.pending) (buffers : after.buffers = progress.buffers) :
    Placed after held step limit := by
  rcases progress with ⟨_, _, _, _⟩
  rcases after with ⟨_, _, _, _⟩
  simp only at allocators pending buffers
  subst allocators pending buffers
  exact ⟨placed.wellFormed, placed.known, placed.fits, placed.current, placed.taken, placed.spent,
    placed.returned, placed.apart⟩

theorem Placed.raise {higher : Nat} (placed : Placed progress held step limit)
    (le : limit ≤ higher) : Placed progress held step higher where
  wellFormed := placed.wellFormed
  known := placed.known
  fits := placed.fits
  current := placed.current
  taken := placed.taken
  spent := by
    intro outlet buffer stored free
    rcases placed.spent outlet buffer stored free with ⟨unpinned, unread, ended⟩
    exact ⟨unpinned, unread, Nat.lt_of_lt_of_le ended le⟩
  returned := placed.returned
  apart := placed.apart

/-- When a step is over, the next one starts with nothing reserved. -/
theorem Placed.next (placed : Placed progress held step limit) :
    Placed progress held (step + 1) limit where
  wellFormed := placed.wellFormed
  known := placed.known
  fits := placed.fits
  current := by
    intro outlet buffer stored
    rcases placed.current outlet buffer stored with ⟨first, last⟩
    refine ⟨Nat.le_succ_of_le first, ?_⟩
    intro unpinned
    exact ⟨(last unpinned).1, Nat.le_succ_of_le (last unpinned).2⟩
  taken := placed.taken
  spent := placed.spent
  returned := by
    intro outlet buffer stored _ first
    have := (placed.current outlet buffer stored).1
    omega
  apart := placed.apart

/-! ## Reserving -/

/-- What holds of every allocator still does when one of them makes room for
another of which it holds. -/
theorem forall_allocator_set {allocators changed : Allocators} {kind : MemoryKind}
    {rest : Allocator} {holds : MemoryKind → Allocator → Prop}
    (before : ∀ kind allocator, allocators.get kind = some allocator → holds kind allocator)
    (restHolds : holds kind rest) (exchanged : changed = allocators.set kind (some rest)) :
    ∀ kind allocator, changed.get kind = some allocator → holds kind allocator := by
  intro other allocator present
  rw [exchanged, PerKind.get_set] at present
  split at present
  · next same =>
    rcases Option.some.inj present with rfl
    exact same ▸ restHolds
  · exact before other allocator present

/-- The bytes of a buffer stay taken if the allocator that changes frees none of
them. -/
private theorem taken_set {allocators : Allocators} {kind : MemoryKind}
    {allocator rest : Allocator} {buffer : Buffer}
    (present : allocators.get kind = some allocator)
    (kept : buffer.kind = kind → ∀ address, buffer.block.Covers address →
      rest.space.Free address → allocator.space.Free address)
    (taken : ∃ owner, allocators.get buffer.kind = some owner ∧
      ∀ address, buffer.block.Covers address → ¬ owner.space.Free address) :
    ∃ owner, (allocators.set kind (some rest)).get buffer.kind = some owner ∧
      ∀ address, buffer.block.Covers address → ¬ owner.space.Free address := by
  rcases taken with ⟨owner, ownerPresent, notFree⟩
  rw [PerKind.get_set]
  split
  · next sameKind =>
    rw [sameKind, present] at ownerPresent
    rcases Option.some.inj ownerPresent with rfl
    refine ⟨rest, rfl, ?_⟩
    intro address covers free
    exact notFree address covers (kept sameKind address covers free)
  · exact ⟨owner, ownerPresent, notFree⟩

/-- A buffer that meets free bytes has been returned. -/
theorem Placed.spent_of_meets {other : Outlet} {buffer : Buffer} {block : Block}
    {allocator : Allocator} (placed : Placed progress held step limit)
    (present : progress.allocators.get buffer.kind = some allocator)
    (free : ∀ address, block.Covers address → allocator.space.Free address)
    (stored : progress.buffers.get? other = some buffer) (meets : buffer.block.Meets block) :
    ¬ held other ∧ buffer.last < limit := by
  rcases meets with ⟨address, inOther, inBlock⟩
  have notHeld : ¬ held other := by
    intro holds
    rcases placed.taken other buffer stored holds with ⟨owner, ownerPresent, notFree⟩
    rcases Option.some.inj (present.symm.trans ownerPresent) with rfl
    exact notFree address inOther (free address inBlock)
  exact ⟨notHeld, (placed.spent other buffer stored notHeld).2.2⟩

/-- A new buffer is made of free bytes, so it meets only buffers that were
returned in an earlier step. -/
theorem Placed.reserve {g : Graph} {scheduled : List Nat} {final : Nat} {outlet : Outlet}
    (placed : Placed progress held step step)
    (fresh : progress.buffers.get? outlet = none)
    (done : reserve g scheduled step final outlet progress = .ok () after) :
    Placed after (fun other => held other ∨ other = outlet) step step := by
  rcases reserve_eq_ok done with
    ⟨wire, allocator, block, rest, _, present, allocated, allocators, pending, buffers⟩
  rcases Allocator.space_of_allocate allocated with ⟨size, _, given⟩
  rcases FreeSpace.allocate_eq_some (placed.wellFormed _ _ present) given with
    ⟨restFormed, _, blockFits, wasFree, exact⟩
  have stored : ∀ other buffer, after.buffers.get? other = some buffer →
      (other = outlet ∧ buffer = newBuffer g scheduled step final outlet wire block) ∨
        (other ≠ outlet ∧ progress.buffers.get? other = some buffer) := by
    intro other buffer found
    rw [buffers] at found
    exact OutletMap.get?_insert_eq_some.mp found
  have heldBefore : ∀ other, other ≠ outlet → ((held other ∨ other = outlet) ↔ held other) :=
    fun other different => or_iff_left different
  constructor
  case wellFormed =>
    exact forall_allocator_set placed.wellFormed restFormed allocators
  case known =>
    intro other count counted
    rw [buffers, OutletMap.get?_insert]
    split
    · exact ⟨_, rfl⟩
    · next different =>
      rw [pending, OutletMap.get?_insert_of_ne _ _ different] at counted
      exact placed.known other count counted
  case fits =>
    intro other buffer found
    rcases stored other buffer found with ⟨_, rfl⟩ | ⟨_, old⟩
    · exact blockFits
    · exact placed.fits other buffer old
  case current =>
    intro other buffer found
    rcases stored other buffer found with ⟨_, rfl⟩ | ⟨_, old⟩
    · refine ⟨Nat.le_refl _, ?_⟩
      intro unpinned
      change isPinned g scheduled wire = false at unpinned
      simp [newBuffer, unpinned]
    · exact placed.current other buffer old
  case taken =>
    intro other buffer found holds
    rw [allocators]
    rcases stored other buffer found with ⟨_, rfl⟩ | ⟨different, old⟩
    · refine ⟨rest, (PerKind.get_set _ _ _ _).trans (if_pos rfl), ?_⟩
      intro address covers free
      exact ((exact address).mp free).2 covers
    · refine taken_set present ?_
        (placed.taken other buffer old ((heldBefore other different).mp holds))
      intro _ address _ free
      exact ((exact address).mp free).1
  case spent =>
    intro other buffer found notHeld
    rcases stored other buffer found with ⟨same, _⟩ | ⟨different, old⟩
    · exact absurd (Or.inr same) notHeld
    · rw [heldBefore other different] at notHeld
      rcases placed.spent other buffer old notHeld with ⟨unpinned, unread, ended⟩
      rw [pending, OutletMap.get?_insert_of_ne _ _ different]
      exact ⟨unpinned, unread, ended⟩
  case returned =>
    intro other buffer found notHeld first
    rcases stored other buffer found with ⟨same, _⟩ | ⟨different, old⟩
    · exact absurd (Or.inr same) notHeld
    · -- A buffer of this step that is not held would have been returned before it was made.
      rw [heldBefore other different] at notHeld
      rcases placed.spent other buffer old notHeld with ⟨unpinned, _, ended⟩
      have := (placed.current other buffer old).2 unpinned
      omega
  case apart =>
    intro one other buffer otherBuffer different found otherFound sameKind meets
    rcases stored one buffer found with ⟨rfl, rfl⟩ | ⟨oneOld, old⟩
    · rcases stored other otherBuffer otherFound with ⟨same, _⟩ | ⟨otherOld, otherStored⟩
      · exact absurd same.symm different
      · rcases meets with ⟨address, inNew, inOther⟩
        rw [heldBefore other otherOld]
        exact Or.inr (placed.spent_of_meets (sameKind ▸ present) wasFree otherStored
          ⟨address, inOther, inNew⟩)
    · rcases stored other otherBuffer otherFound with ⟨rfl, rfl⟩ | ⟨otherOld, otherStored⟩
      · rw [heldBefore one oneOld]
        exact Or.inl (placed.spent_of_meets (sameKind ▸ present) wasFree old meets)
      · rw [heldBefore one oneOld, heldBefore other otherOld]
        exact placed.apart one other buffer otherBuffer different old otherStored sameKind meets

/-! ## Reclaiming -/

/-- An allocator may take bytes back that no held buffer has.  Buffers that are
held no longer must be done with, and their bytes free. -/
theorem Placed.takeBack {kind : MemoryKind} {allocator rest : Allocator}
    {nowHeld : Outlet → Prop} (placed : Placed progress held step limit)
    (present : progress.allocators.get kind = some allocator)
    (restFormed : rest.space.WellFormed)
    (grows : ∀ address, allocator.space.Free address → rest.space.Free address)
    (fewer : ∀ other, nowHeld other → held other)
    (kept : ∀ other buffer, progress.buffers.get? other = some buffer → nowHeld other →
      buffer.kind = kind → ∀ address, buffer.block.Covers address →
        rest.space.Free address → allocator.space.Free address)
    (dropped : ∀ other buffer, progress.buffers.get? other = some buffer → held other →
      ¬ nowHeld other → (buffer.pinned = false ∧ progress.pending.get? other = some 0 ∧
        buffer.last < limit) ∧ buffer.kind = kind ∧
          ∀ address, buffer.block.Covers address → rest.space.Free address)
    (allocators : after.allocators = progress.allocators.set kind (some rest))
    (pending : after.pending = progress.pending) (buffers : after.buffers = progress.buffers) :
    Placed after nowHeld step limit where
  wellFormed := by
    exact forall_allocator_set placed.wellFormed restFormed allocators
  known := by
    rw [buffers, pending]
    exact placed.known
  fits := by
    rw [buffers]
    exact placed.fits
  current := by
    rw [buffers]
    exact placed.current
  taken := by
    rw [buffers, allocators]
    intro other buffer stored holds
    exact taken_set present (kept other buffer stored holds)
      (placed.taken other buffer stored (fewer other holds))
  spent := by
    rw [buffers, pending]
    intro other buffer stored notHeld
    by_cases wasHeld : held other
    · exact (dropped other buffer stored wasHeld notHeld).1
    · exact placed.spent other buffer stored wasHeld
  returned := by
    rw [buffers, allocators]
    intro other buffer stored notHeld first owner isThere address covers
    rw [PerKind.get_set] at isThere
    by_cases wasHeld : held other
    · rcases dropped other buffer stored wasHeld notHeld with ⟨_, sameKind, free⟩
      rw [if_pos sameKind] at isThere
      rcases Option.some.inj isThere with rfl
      exact free address covers
    · have free := placed.returned other buffer stored wasHeld first
      split at isThere
      · next sameKind =>
        rcases Option.some.inj isThere with rfl
        exact grows address (free allocator (sameKind ▸ present) address covers)
      · exact free owner isThere address covers
  apart := by
    rw [buffers]
    intro one other buffer otherBuffer different stored otherStored sameKind meets
    rcases placed.apart one other buffer otherBuffer different stored otherStored sameKind
      meets with ⟨notHeld, ended⟩ | ⟨notHeld, ended⟩
    · exact Or.inl ⟨fun holds => notHeld (fewer one holds), ended⟩
    · exact Or.inr ⟨fun holds => notHeld (fewer other holds), ended⟩

/-- Returning a held buffer frees bytes that no other held buffer has. -/
theorem Placed.release {outlet : Outlet} {buffer : Buffer} {allocator rest : Allocator}
    (placed : Placed progress held step limit)
    (stored : progress.buffers.get? outlet = some buffer) (unpinned : buffer.pinned = false)
    (unread : progress.pending.get? outlet = some 0) (inTime : step < limit)
    (holds : held outlet) (present : progress.allocators.get buffer.kind = some allocator)
    (released : allocator.release buffer.block = .ok rest)
    (allocators : after.allocators = progress.allocators.set buffer.kind (some rest))
    (pending : after.pending = progress.pending) (buffers : after.buffers = progress.buffers) :
    Placed after (fun other => held other ∧ other ≠ outlet) step limit := by
  rcases FreeSpace.release_eq_ok (placed.wellFormed _ _ present)
    (Allocator.space_of_release released) with ⟨restFormed, exact, _⟩
  refine placed.takeBack present restFormed (fun address free => (exact address).mpr (Or.inl free))
    (fun _ both => both.1) ?_ ?_ allocators pending buffers
  · rintro other otherBuffer found ⟨otherHeld, different⟩ sameKind address covers free
    rcases (exact address).mp free with wasFree | justReturned
    · exact wasFree
    · rcases placed.apart other outlet otherBuffer buffer different found stored sameKind
        ⟨address, covers, justReturned⟩ with ⟨notHeld, _⟩ | ⟨notHeld, _⟩
      · exact absurd otherHeld notHeld
      · exact absurd holds notHeld
  · intro other otherBuffer found wasHeld notHeld
    have same : other = outlet := by
      by_contra different
      exact notHeld ⟨wasHeld, different⟩
    subst same
    rcases Option.some.inj (stored.symm.trans found) with rfl
    have bounds := (placed.current other buffer found).2 unpinned
    exact ⟨⟨unpinned, unread, Nat.lt_of_le_of_lt bounds.2 inTime⟩, rfl,
      fun address covers => (exact address).mpr (Or.inr covers)⟩

/-- Returning a block without bytes changes nothing. -/
theorem Placed.releaseEmpty {buffer : Buffer} {allocator rest : Allocator}
    (placed : Placed progress held step limit)
    (empty : ∀ address, ¬ buffer.block.Covers address)
    (present : progress.allocators.get buffer.kind = some allocator)
    (released : allocator.release buffer.block = .ok rest)
    (allocators : after.allocators = progress.allocators.set buffer.kind (some rest))
    (pending : after.pending = progress.pending) (buffers : after.buffers = progress.buffers) :
    Placed after held step limit := by
  rcases FreeSpace.release_eq_ok (placed.wellFormed _ _ present)
    (Allocator.space_of_release released) with ⟨restFormed, exact, _⟩
  have sameFree : ∀ address, rest.space.Free address ↔ allocator.space.Free address :=
    fun address => (exact address).trans (or_iff_left (empty address))
  refine placed.takeBack present restFormed (fun address => (sameFree address).mpr)
    (fun _ holds => holds) ?_ ?_ allocators pending buffers
  · intro _ _ _ _ _ address _
    exact (sameFree address).mp
  · intro _ _ _ holds notHeld
    exact absurd holds notHeld

/-- Reclaiming a value that nobody will read keeps the blocks in order.  If its
buffer was returned already, then in this very step, so its bytes are free and
a second return can only succeed on an empty block. -/
theorem Placed.reclaim {outlet : Outlet} (placed : Placed progress held step limit)
    (unread : progress.pending.get? outlet = some 0) (inTime : step < limit)
    (recent : held outlet ∨
      ∀ buffer, progress.buffers.get? outlet = some buffer → buffer.first = step)
    (done : reclaim outlet progress = .ok () after) :
    ∃ stillHeld, Placed after stillHeld step limit := by
  rcases reclaim_eq_ok done with
    ⟨buffer, stored, pending, buffers, ⟨allocators, _⟩ | ⟨unpinned, allocator, rest, present,
      released, allocators⟩⟩
  · exact ⟨held, placed.congr allocators pending buffers⟩
  · by_cases holds : held outlet
    · exact ⟨_, placed.release stored unpinned unread inTime holds present released allocators
        pending buffers⟩
    · have first := recent.resolve_left holds buffer stored
      have empty : ∀ address, ¬ buffer.block.Covers address := by
        intro address covers
        have free := placed.returned outlet buffer stored holds first allocator present address
          covers
        exact (FreeSpace.release_eq_ok (placed.wellFormed _ _ present)
          (Allocator.space_of_release released)).2.2 address covers free
      exact ⟨held, placed.releaseEmpty empty present released allocators pending buffers⟩

/-! ## Reading -/

/-- What an extension changes: the last step of an unpinned buffer. -/
theorem extendTo_eq (step : Nat) (buffer : Buffer) :
    ∃ last, extendTo step buffer = { buffer with last := last } ∧
      (buffer.pinned = false → last = step) := by
  unfold extendTo
  split
  · next pinned =>
    refine ⟨buffer.last, rfl, ?_⟩
    intro unpinned
    rw [pinned] at unpinned
    cases unpinned
  · exact ⟨step, rfl, fun _ => rfl⟩

/-- A read changes nothing but the end of a lifetime. -/
theorem exists_afterRead {outlet other : Outlet} {buffer : Buffer} (remaining : Nat)
    (stored : progress.buffers.get? other = some buffer) :
    ∃ last, (afterRead step outlet remaining progress).buffers.get? other =
      some { buffer with last := last } := by
  rw [buffers_afterRead, stored, Option.map_some]
  split
  · rcases extendTo_eq step buffer with ⟨last, extended, -⟩
    exact ⟨last, congrArg some extended⟩
  · exact ⟨buffer.last, rfl⟩

/-- A lifetime that a read has moved is that of the value read, and it ends now
unless it is pinned. -/
theorem exists_before_afterRead {outlet other : Outlet} {buffer : Buffer} {remaining : Nat}
    (stored : (afterRead step outlet remaining progress).buffers.get? other = some buffer) :
    ∃ earlier last, progress.buffers.get? other = some earlier ∧
      buffer = { earlier with last := last } ∧
        (last = earlier.last ∨ (other = outlet ∧ (earlier.pinned = false → last = step))) := by
  rw [buffers_afterRead] at stored
  rcases Option.map_eq_some_iff.mp stored with ⟨earlier, earlierStored, rfl⟩
  refine ⟨earlier, ?_⟩
  split
  · next same =>
    rcases extendTo_eq step earlier with ⟨last, extended, moved⟩
    exact ⟨last, earlierStored, extended, Or.inr ⟨same, moved⟩⟩
  · exact ⟨earlier.last, earlierStored, rfl, Or.inl rfl⟩

/-- Noting a read of a held buffer keeps the blocks in order: only its own last
step moves, and no other buffer relies on that. -/
theorem Placed.afterRead {outlet : Outlet} (placed : Placed progress held step limit)
    (remaining : Nat) (holds : held outlet)
    (known : ∃ buffer, progress.buffers.get? outlet = some buffer) :
    Placed (afterRead step outlet remaining progress) held step limit := by
  constructor
  case wellFormed => exact placed.wellFormed
  case known =>
    intro other count counted
    have present : ∃ buffer, progress.buffers.get? other = some buffer := by
      by_cases same : other = outlet
      · exact same ▸ known
      · apply placed.known other count
        rw [← counted]
        exact (OutletMap.get?_insert_of_ne _ _ same).symm
    rcases present with ⟨buffer, found⟩
    rcases exists_afterRead remaining found with ⟨last, nowFound⟩
    exact ⟨_, nowFound⟩
  case fits =>
    intro other buffer found
    rcases exists_before_afterRead found with ⟨old, last, present, rfl, _⟩
    exact placed.fits other old present
  case current =>
    intro other buffer found
    rcases exists_before_afterRead found with ⟨old, last, present, rfl, unchanged | ⟨_, moved⟩⟩
    · rw [unchanged]
      exact placed.current other old present
    · rcases placed.current other old present with ⟨first, _⟩
      refine ⟨first, ?_⟩
      intro unpinned
      have last := moved unpinned
      exact ⟨last ▸ first, Nat.le_of_eq last⟩
  case taken =>
    intro other buffer found otherHeld
    rcases exists_before_afterRead found with ⟨old, last, present, rfl, _⟩
    exact placed.taken other old present otherHeld
  case spent =>
    intro other buffer found notHeld
    rcases exists_before_afterRead found with ⟨old, last, present, rfl, unchanged | ⟨same, _⟩⟩
    · have different : other ≠ outlet := fun same => notHeld (same ▸ holds)
      rw [unchanged]
      change _ ∧ (progress.pending.insert outlet remaining).get? other = some 0 ∧ _
      rw [OutletMap.get?_insert_of_ne _ _ different]
      exact placed.spent other old present notHeld
    · exact absurd (same ▸ holds) notHeld
  case returned =>
    intro other buffer found notHeld
    rcases exists_before_afterRead found with ⟨old, last, present, rfl, _⟩
    exact placed.returned other old present notHeld
  case apart =>
    intro one other buffer otherBuffer different found otherFound sameKind meets
    rcases exists_before_afterRead found with ⟨old, last, present, rfl, moved⟩
    rcases exists_before_afterRead otherFound with
      ⟨otherOld, otherLast, otherPresent, rfl, otherMoved⟩
    rcases placed.apart one other old otherOld different present otherPresent sameKind meets with
      ⟨notHeld, ended⟩ | ⟨notHeld, ended⟩
    · rcases moved with unchanged | ⟨same, _⟩
      · exact Or.inl ⟨notHeld, unchanged ▸ ended⟩
      · exact absurd (same ▸ holds) notHeld
    · rcases otherMoved with unchanged | ⟨same, _⟩
      · exact Or.inr ⟨notHeld, unchanged ▸ ended⟩
      · exact absurd (same ▸ holds) notHeld

/-- A value that is read is held: a returned buffer has no reader left. -/
theorem Placed.finishRead {outlet : Outlet} (placed : Placed progress held step limit)
    (inTime : step < limit) (done : finishRead step outlet progress = .ok () after) :
    ∃ stillHeld, Placed after stillHeld step limit := by
  rcases finishRead_eq_ok done with ⟨remaining, counted, outcome⟩
  have known := placed.known outlet _ counted
  have holds : held outlet := by
    by_contra notHeld
    rcases known with ⟨buffer, stored⟩
    have unread := (placed.spent outlet buffer stored notHeld).2.1
    rw [counted] at unread
    cases unread
  have noted := placed.afterRead remaining holds known
  rcases outcome with ⟨rfl, reclaimed⟩ | ⟨_, rfl⟩
  · refine noted.reclaim ?_ inTime (Or.inl holds) reclaimed
    exact OutletMap.get?_insert_self _ _ _
  · exact ⟨held, noted⟩

/-! ## Whole runs -/

theorem Placed.reserveAll {g : Graph} {scheduled : List Nat} {final : Nat}
    {outlets : List Outlet} (placed : Placed progress held step step) (distinct : outlets.Nodup)
    (fresh : ∀ outlet ∈ outlets, progress.buffers.get? outlet = none)
    (done : outlets.forM (Scheduling.reserve g scheduled step final) progress = .ok () after) :
    ∃ nowHeld, Placed after nowHeld step step := by
  induction outlets generalizing progress held with
  | nil =>
      rw [Stateful.forM_nil_eq_ok] at done
      subst done
      exact ⟨held, placed⟩
  | cons head rest inductionHypothesis =>
      rcases List.nodup_cons.mp distinct with ⟨headFresh, restDistinct⟩
      rcases Stateful.forM_cons_eq_ok.mp done with ⟨between, first, later⟩
      refine inductionHypothesis (placed.reserve (fresh head List.mem_cons_self) first)
        restDistinct ?_ later
      intro outlet member
      rcases reserve_eq_ok first with ⟨_, _, _, _, _, _, _, _, _, buffers⟩
      have different : outlet ≠ head := fun same => headFresh (same ▸ member)
      rw [buffers, OutletMap.get?_insert_of_ne _ _ different]
      exact fresh outlet (List.mem_cons_of_mem _ member)

theorem Placed.finishReads {outlets : List Outlet} (placed : Placed progress held step limit)
    (inTime : step < limit)
    (done : outlets.forM (Scheduling.finishRead step) progress = .ok () after) :
    ∃ stillHeld, Placed after stillHeld step limit := by
  induction outlets generalizing progress held with
  | nil =>
      rw [Stateful.forM_nil_eq_ok] at done
      subst done
      exact ⟨held, placed⟩
  | cons head rest inductionHypothesis =>
      rcases Stateful.forM_cons_eq_ok.mp done with ⟨between, first, later⟩
      rcases placed.finishRead inTime first with ⟨stillHeld, betweenPlaced⟩
      exact inductionHypothesis betweenPlaced later

theorem Placed.reclaimAllUnread {outlets : List Outlet}
    (placed : Placed progress held step limit) (inTime : step < limit)
    (own : ∀ outlet ∈ outlets, ∀ buffer, progress.buffers.get? outlet = some buffer →
      buffer.first = step)
    (done : outlets.forM reclaimUnread progress = .ok () after) :
    ∃ stillHeld, Placed after stillHeld step limit := by
  induction outlets generalizing progress held with
  | nil =>
      rw [Stateful.forM_nil_eq_ok] at done
      subst done
      exact ⟨held, placed⟩
  | cons head rest inductionHypothesis =>
      rcases Stateful.forM_cons_eq_ok.mp done with ⟨between, first, later⟩
      have betweenPlaced : ∃ stillHeld, Placed between stillHeld step limit := by
        rcases reclaimUnread_eq_ok first with ⟨unread, reclaimed⟩ | rfl
        · exact placed.reclaim unread inTime (Or.inr (own head List.mem_cons_self)) reclaimed
        · exact ⟨held, placed⟩
      rcases betweenPlaced with ⟨stillHeld, betweenPlaced⟩
      refine inductionHypothesis betweenPlaced ?_ later
      intro outlet member
      rw [(reclaimUnread_tables first).1]
      exact own outlet (List.mem_cons_of_mem _ member)

/-- Blocks are given out before a step and returned after it. -/
theorem Placed.runNode {g : Graph} {scheduled : List Nat} {final id : Nat}
    (placed : Placed progress held step step)
    (fresh : ∀ outlet : Outlet, outlet.node = id → progress.buffers.get? outlet = none)
    (done : Scheduling.runNode g scheduled final step id progress = .ok () after) :
    ∃ nowHeld, Placed after nowHeld (step + 1) (step + 1) := by
  rcases runNode_eq_ok done with ⟨node, reserved, read, found, first, second, third⟩
  have inTime := Nat.lt_succ_self step
  rcases placed.reserveAll (outletsOf_nodup id node)
    (fun outlet own => fresh outlet ((mem_outletsOf found).mp own).1) first with ⟨_, reservedPlaced⟩
  rcases (reservedPlaced.raise (Nat.le_succ step)).finishReads inTime second with ⟨_, readPlaced⟩
  have own : ∀ outlet ∈ outletsOf id node, ∀ buffer, read.buffers.get? outlet = some buffer →
      buffer.first = step := by
    intro outlet member buffer stored
    rcases (forM_reserve_eq_ok (outletsOf_nodup id node) first).2 outlet member with
      ⟨wire, block, _, added, _⟩
    rw [(forM_finishRead_eq_ok second).1, added, Option.map_some, extendTo_newBuffer, ite_self]
      at stored
    rw [← Option.some.inj stored]
    rfl
  rcases readPlaced.reclaimAllUnread inTime own third with ⟨nowHeld, afterPlaced⟩
  exact ⟨nowHeld, afterPlaced.next⟩

/-- A run through nodes that have not run before keeps the blocks in order. -/
theorem Placed.run {g : Graph} {scheduled sequence ids : List Nat} {final : Nat}
    (placed : Placed progress held sequence.length sequence.length)
    (records : Records g scheduled final sequence progress) (distinct : (sequence ++ ids).Nodup)
    (done : runNodes g scheduled final sequence.length ids progress = .ok () after) :
    ∃ nowHeld, Placed after nowHeld (sequence ++ ids).length (sequence ++ ids).length := by
  induction ids generalizing sequence progress held with
  | nil =>
      simp only [runNodes, Stateful.pure_eq_ok] at done
      rcases done with ⟨_, rfl⟩
      rw [List.append_nil]
      exact ⟨held, placed⟩
  | cons id rest inductionHypothesis =>
      simp only [runNodes, Stateful.bind_eq_ok] at done
      rcases done with ⟨_, between, first, later⟩
      rcases runNode_tables first with ⟨node, found, tables⟩
      have new : id ∉ sequence := by
        intro member
        exact (List.nodup_append.mp distinct).2.2 id member id List.mem_cons_self rfl
      have fresh : ∀ outlet : Outlet, outlet.node = id →
          progress.buffers.get? outlet = none := by
        rintro outlet rfl
        by_contra present
        exact new ((records.keys outlet).mp (Option.ne_none_iff_exists'.mp present)).1
      rcases placed.runNode fresh first with ⟨nowHeld, betweenPlaced⟩
      have regrouped : sequence ++ id :: rest = (sequence ++ [id]) ++ rest := by
        rw [List.append_assoc, List.singleton_append]
      have length : (sequence ++ [id]).length = sequence.length + 1 := List.length_append
      rw [regrouped] at distinct ⊢
      rw [← length] at betweenPlaced later
      exact inductionHypothesis betweenPlaced (records.node new found tables) distinct later

/-- Nothing is in disorder before the first step, if the allocators have only
ever been used as such. -/
theorem placed_start {allocators : Allocators} (held : Outlet → Prop) (journal : Journal)
    (reached : ∀ kind allocator, allocators.get kind = some allocator → allocator.Reached) :
    Placed ⟨allocators, .empty, .empty, journal⟩ held 0 0 := by
  refine ⟨fun kind allocator present => (reached kind allocator present).wellFormed,
    ?_, ?_, ?_, ?_, ?_, ?_, ?_⟩ <;> simp

end

end Scheduling
end TensorCompiler
