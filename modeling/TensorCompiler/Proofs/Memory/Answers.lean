import Mathlib.Order.Bounds.Basic
import TensorCompiler.Proofs.Memory.Ledger
import TensorCompiler.Proofs.Memory.Lending

namespace TensorCompiler

/-!
# What a memory answers

A request takes the first span that is long enough, and a block that comes back is compared
with two spans only, the last one that starts below it and the next one after that.  Both
answers can be told from the addresses alone.  Since spans never touch, bytes that are free in
a row lie in one span, and so first fit is lowest fit.  And since spans are in order, a block
that shares a byte with any of them shares one with a neighbour.
-/

namespace FreeSpace

variable {space after : FreeSpace} {spans : List Span} {span : Span} {size : Nat} {block : Block}

/-! ## Requests -/

/-- A request for bytes is answered with the lowest offset at which they are all free. -/
theorem allocate_eq_some_iff (wellFormed : space.WellFormed) (positive : size ≠ 0) :
    (space.allocate size).map Prod.fst = some block ↔ block.size = size ∧
      IsLeast {offset | ∀ address, Block.Covers ⟨offset, size⟩ address → space.Free address}
        block.offset := by
  have lowest : ∀ {given after}, space.allocate size = some (given, after) → given.size = size ∧
      IsLeast {offset | ∀ address, Block.Covers ⟨offset, size⟩ address → space.Free address}
        given.offset := by
    intro given after answered
    rcases allocate_eq_some wellFormed answered with ⟨-, rfl, -, wasFree, -⟩
    exact ⟨rfl, wasFree, fun other free => offset_le_of_allocate wellFormed free answered⟩
  constructor
  · intro answered
    rcases Option.map_eq_some_iff.mp answered with ⟨⟨given, after⟩, found, rfl⟩
    exact lowest found
  · rintro ⟨sized, least⟩
    cases answered : space.allocate size with
    | none =>
        have crowded := ((allocate_eq_none_iff wellFormed).mp answered).2
        exact absurd least.1 (crowded block.offset)
    | some answer =>
        rcases answer with ⟨given, after⟩
        rcases lowest answered with ⟨sameSize, sameLeast⟩
        rw [Option.map_some, Option.some.injEq, Block.mk.injEq]
        exact ⟨sameLeast.unique least, sameSize.trans sized.symm⟩

/-! ## Blocks that come back -/

theorem putBefore_eq_error {above : List Span} {failure : Failure}
    (failed : putBefore span above = .error failure) : failure = .aborted .doubleFree := by
  cases above with
  | nil => cases failed
  | cons next rest =>
      rw [putBefore] at failed
      split at failed
      · exact (Except.error.inj failed).symm
      · split at failed
        · cases failed
        · cases failed

/-- Nothing but a double free can go wrong when a span is put back. -/
theorem put_eq_error {failure : Failure} (failed : put span spans = .error failure) :
    failure = .aborted .doubleFree := by
  unfold put at failed
  dsimp only at failed
  split at failed
  · exact putBefore_eq_error failed
  · split at failed
    · exact (Except.error.inj failed).symm
    · split at failed
      · rcases Checked.bind_eq_error.mp failed with failed | ⟨_, _, impossible⟩
        · exact putBefore_eq_error failed
        · cases impossible
      · rcases Checked.bind_eq_error.mp failed with failed | ⟨_, _, impossible⟩
        · exact putBefore_eq_error failed
        · cases impossible

/-- A double free is found exactly if an address of the span is covered. -/
theorem put_eq_doubleFree_iff (ordered : InOrder spans) (nonempty : span.start < span.stop) :
    put span spans = .error (.aborted .doubleFree) ↔
      ∃ address, span.Covers address ∧ Covered spans address := by
  constructor
  · intro taken
    by_contra fresh
    rcases exists_put ordered nonempty
      (fun address inSpan covered => fresh ⟨address, inSpan, covered⟩) with ⟨result, done⟩
    rw [taken] at done
    cases done
  · rintro ⟨address, inSpan, covered⟩
    cases outcome : put span spans with
    | ok result => exact absurd covered ((put_eq_ok ordered nonempty outcome).2.2 address inSpan)
    | error failure => rw [put_eq_error outcome]

/-- A block with bytes that ends within a word is put back as one span. -/
theorem release_eq_put (nonempty : block.size ≠ 0) (fits : block.Fits) :
    space.release block = do
      return { space with
        spans := ← put ⟨block.offset, block.offset + block.size⟩ space.spans } := by
  rw [release, if_neg nonempty, Block.stop_eq_ok fits]
  rfl

/-- A block that comes back is reported as a double free exactly if it shares a byte with some
free span.  If it shares none, it is taken back: the spans are again in order, cover its bytes
and those they covered before, and nothing else about the memory changes. -/
theorem release_detects_exactly (ordered : InOrder space.spans) (nonempty : block.size ≠ 0)
    (fits : block.Fits) :
    (space.release block = .error (.aborted .doubleFree) ↔
      ∃ span ∈ space.spans, ∃ address, span.Covers address ∧ block.Covers address) ∧
    ((∀ span ∈ space.spans, ∀ address, span.Covers address → ¬ block.Covers address) →
      ∃ after, space.release block = .ok after ∧ InOrder after.spans ∧
        (∀ address, after.Free address ↔ space.Free address ∨ block.Covers address) ∧
        after.capacity = space.capacity ∧ after.highWater = space.highWater) := by
  let span : Span := ⟨block.offset, block.offset + block.size⟩
  have spanNonempty : span.start < span.stop := by
    simp only [span]
    omega
  rw [release_eq_put nonempty fits]
  constructor
  · have shared : (∃ address, span.Covers address ∧ Covered space.spans address) ↔
        ∃ free ∈ space.spans, ∃ address, free.Covers address ∧ block.Covers address := by
      constructor
      · rintro ⟨address, inBlock, free, member, inFree⟩
        exact ⟨free, member, address, inFree, inBlock⟩
      · rintro ⟨free, member, address, inFree, inBlock⟩
        exact ⟨address, inBlock, free, member, inFree⟩
    rw [← shared, ← put_eq_doubleFree_iff ordered spanNonempty, Checked.bind_eq_error]
    refine or_iff_left ?_
    rintro ⟨_, _, impossible⟩
    cases impossible
  · intro apart
    have fresh : ∀ address, span.Covers address → ¬ Covered space.spans address := by
      rintro address inBlock ⟨free, member, inFree⟩
      exact apart free member address inFree inBlock
    rcases exists_put ordered spanNonempty fresh with ⟨result, done⟩
    rcases put_eq_ok ordered spanNonempty done with ⟨resultOrdered, exact, -⟩
    refine ⟨{ space with spans := result }, ?_, resultOrdered, exact, rfl, rfl⟩
    rw [done]
    rfl

/-- Three spans with gaps between them. -/
def scattered : FreeSpace :=
  ⟨[⟨0, 4⟩, ⟨8, 12⟩, ⟨20, 24⟩], some 32, 32⟩

/-- A block that starts and ends outside the free spans but lies over one of them is a double
free; one that fills a gap joins its neighbours. -/
theorem release_detects_scattered :
    scattered.release ⟨6, 16⟩ = .error (.aborted .doubleFree) ∧
      ∃ after, scattered.release ⟨4, 4⟩ = .ok after ∧ after.spans = [⟨0, 12⟩, ⟨20, 24⟩] ∧
        InOrder after.spans ∧
        ∀ address, after.Free address ↔ scattered.Free address ∨ Block.Covers ⟨4, 4⟩ address := by
  have ordered : InOrder scattered.spans := ⟨by decide, by decide⟩
  have apart : ∀ span ∈ scattered.spans, ∀ address, span.Covers address →
      ¬ Block.Covers ⟨4, 4⟩ address := by
    simp only [scattered, List.forall_mem_cons, Span.Covers, Block.Covers]
    exact ⟨by omega, by omega, by omega, List.forall_mem_nil _⟩
  constructor
  · exact (release_detects_exactly ordered (by decide) (by decide)).1.mpr
      ⟨⟨8, 12⟩, by decide, 8, by decide, by decide⟩
  · rcases (release_detects_exactly ordered (by decide) (by decide)).2 apart with
      ⟨after, released, afterOrdered, exact, -, -⟩
    refine ⟨after, released, ?_, afterOrdered, exact⟩
    rcases Except.ok.inj released with rfl
    rfl

end FreeSpace

/-! ## Requests to a ledger -/

namespace Ledger

variable {limit size : Nat} {ledger : Ledger} {capacity : Option Nat} {requests : List Request}

/-- Bytes from an offset on lie within the first `limit` addresses and meet no block. -/
def Room (limit : Nat) (blocks : List Block) (size offset : Nat) : Prop :=
  offset + size ≤ limit ∧ ∀ block ∈ blocks, ¬ block.Meets ⟨offset, size⟩

theorem Balanced.room_iff {offset : Nat} (balanced : ledger.Balanced limit)
    (positive : size ≠ 0) :
    Room limit ledger.lent size offset ↔
      ∀ address, Block.Covers ⟨offset, size⟩ address → ledger.space.Free address := by
  simp only [balanced.exact]
  constructor
  · rintro ⟨inside, apart⟩ address covers
    exact ⟨Nat.lt_of_lt_of_le covers.2 inside, fun block member inBlock =>
      apart block member ⟨address, inBlock, covers⟩⟩
  · intro vacant
    constructor
    · have last := (vacant (offset + size - 1) ⟨by simp only; omega, by simp only; omega⟩).1
      omega
    · rintro block member ⟨address, inBlock, covers⟩
      exact (vacant address covers).2 block member inBlock

/-- A request is answered with the lowest offset that has room for it, and is turned down only
if there is no room at all.  In the first case the block is lent and the high-water mark is
raised to its end; in the second nothing changes. -/
structure ServesLowest (limit size : Nat) (ledger : Ledger) : Prop where
  answer : ∀ block, (ledger.space.allocate size).map Prod.fst = some block ↔
    block.size = size ∧ IsLeast {offset | Room limit ledger.lent size offset} block.offset
  refusal : ledger.space.allocate size = none ↔ ∀ offset, ¬ Room limit ledger.lent size offset
  lending : ∀ offset, IsLeast {offset | Room limit ledger.lent size offset} offset →
    ∃ after, ledger.serve (.allocate size) = .ok after ∧
      after.lent = ⟨offset, size⟩ :: ledger.lent ∧
      after.space.capacity = ledger.space.capacity ∧
      after.space.highWater = max ledger.space.highWater (offset + size)
  unchanged : (∀ offset, ¬ Room limit ledger.lent size offset) →
    ledger.serve (.allocate size) = .ok ledger

theorem Balanced.servesLowest (balanced : ledger.Balanced limit) (small : limit ≤ Word.largest)
    (positive : size ≠ 0) : ledger.ServesLowest limit size := by
  have wellFormed := balanced.wellFormed small
  have answer : ∀ block, (ledger.space.allocate size).map Prod.fst = some block ↔
      block.size = size ∧ IsLeast {offset | Room limit ledger.lent size offset} block.offset := by
    intro block
    simp only [balanced.room_iff positive]
    exact FreeSpace.allocate_eq_some_iff wellFormed positive
  have refusal : ledger.space.allocate size = none ↔
      ∀ offset, ¬ Room limit ledger.lent size offset := by
    simp only [balanced.room_iff positive]
    exact (FreeSpace.allocate_eq_none_iff wellFormed).trans (and_iff_right positive)
  refine ⟨answer, refusal, ?_, ?_⟩
  · intro offset least
    rcases Option.map_eq_some_iff.mp ((answer ⟨offset, size⟩).mpr ⟨rfl, least⟩) with
      ⟨⟨_, space⟩, given, rfl⟩
    rcases FreeSpace.marks_of_allocate given with ⟨sameCapacity, raised⟩
    refine ⟨⟨space, ⟨offset, size⟩ :: ledger.lent⟩, ?_, rfl, sameCapacity, raised⟩
    rw [Ledger.serve, given]
    rfl
  · intro crowded
    rw [Ledger.serve, refusal.mpr crowded]
    rfl

/-- After any requests that give back only what is lent, a request for bytes is answered with
the lowest offset at which they lie in the address space and meet no lent block, and is turned
down, without a change, exactly if there is none. -/
theorem exists_serveAll_servesLowest
    (fits : ∀ size, capacity = some size → size ≤ Word.largest)
    (honest : (opened capacity).Honest requests) (positive : 0 < size) :
    ∃ ledger, (opened capacity).serveAll requests = .ok ledger ∧
      ledger.ServesLowest (FreeSpace.extent capacity) size := by
  have small := FreeSpace.extent_le fits
  rcases balanced_opened.serveAll small honest with ⟨ledger, served, balanced⟩
  exact ⟨ledger, served, balanced.servesLowest small (Nat.ne_of_gt positive)⟩

/-- Eleven of sixteen bytes are lent and the first four come back.  Five bytes then fit behind
the lent ones only, and six nowhere. -/
theorem servesLowest_sixteen :
    ∃ ledger, (opened (some 16)).serveAll
        [.allocate 4, .allocate 2, .allocate 5, .release ⟨0, 4⟩] = .ok ledger ∧
      (ledger.space.allocate 5).map Prod.fst = some ⟨11, 5⟩ ∧
      IsLeast {offset | Room 16 ledger.lent 5 offset} 11 ∧
      ∀ offset, ¬ Room 16 ledger.lent 6 offset := by
  have asks : ∀ (ledger : Ledger) size block,
      Request.allocate size = .release block → block ∈ ledger.lent := by
    rintro _ _ _ ⟨⟩
  have honest : (opened (some 16)).Honest
      [.allocate 4, .allocate 2, .allocate 5, .release ⟨0, 4⟩] := by
    refine .cons (asks _ 4) rfl (.cons (asks _ 2) rfl (.cons (asks _ 5) rfl
      (.cons ?_ rfl honest_nil)))
    rintro block ⟨⟩
    decide
  have small : ∀ size, some 16 = some size → size ≤ Word.largest := by
    rintro size ⟨⟩
    decide
  rcases exists_serveAll_servesLowest small honest (show 0 < 5 by decide) with
    ⟨ledger, served, five⟩
  rcases exists_serveAll_servesLowest small honest (show 0 < 6 by decide) with
    ⟨again, servedAgain, six⟩
  rcases Except.ok.inj (served.symm.trans servedAgain) with rfl
  have answered : (ledger.space.allocate 5).map Prod.fst = some ⟨11, 5⟩ := by
    rcases Except.ok.inj served with rfl
    rfl
  have refused : ledger.space.allocate 6 = none := by
    rcases Except.ok.inj served with rfl
    rfl
  exact ⟨ledger, served, answered, ((five.answer _).mp answered).2, six.refusal.mp refused⟩

end Ledger

end TensorCompiler
