import Mathlib.Data.Finset.Card
import Mathlib.Order.Interval.Finset.Nat
import TensorCompiler.Proofs.Memory.Headroom

namespace TensorCompiler

/-!
# What an allocator has lent

A request is turned down for one reason only: it asks for bytes, and no run of free addresses
is as long.  Everything else that could go wrong in an allocator is a counter that leaves the
words or a block that comes back twice.  The counter stays below the words since the bytes
that it counts were free before, and together with those that still are there were never more
than a word can tell.  And a block that was lent and has not come back is not free.

The counter never exceeds the bytes below the mark either, since those that it counts were
taken there.

The allocator that lends need not be new.  What it has lent since some earlier time is then
told apart from what it had given out before: the latter is missing from its free addresses at
that time already.
-/

namespace FreeSpace

variable {space after less more : FreeSpace} {size : Nat} {block : Block}

/-! ## Requests that are turned down -/

theorem allocate_eq_none_iff (wellFormed : space.WellFormed) :
    space.allocate size = none ↔ size ≠ 0 ∧
      ∀ offset, ¬ ∀ address, Block.Covers ⟨offset, size⟩ address → space.Free address := by
  unfold allocate
  by_cases empty : size = 0
  · simp [empty]
  rw [if_neg empty, Option.map_eq_none_iff, and_iff_right empty]
  constructor
  · intro refused offset free
    rcases exists_long_span wellFormed.ordered empty free with ⟨span, member, -, long⟩
    rcases exists_cut wellFormed.ordered member long with ⟨_, _, found, _⟩
    rw [refused] at found
    cases found
  · intro crowded
    apply Option.eq_none_iff_forall_ne_some.mpr
    intro ⟨offset, remaining⟩ found
    exact crowded offset
      (cut_eq_some wellFormed.ordered (Nat.pos_of_ne_zero empty) found).covered

/-! ## Counting free addresses -/

instance (span : Span) (address : Nat) : Decidable (span.Covers address) :=
  inferInstanceAs (Decidable (_ ∧ _))

instance (space : FreeSpace) : DecidablePred space.Free := fun address =>
  inferInstanceAs (Decidable (∃ span ∈ space.spans, span.Covers address))

/-- The free addresses. -/
def vacancies (space : FreeSpace) : Finset Nat :=
  (Finset.range Word.largest).filter space.Free

theorem card_vacancies_le (space : FreeSpace) : space.vacancies.card ≤ Word.largest := by
  have bound := Finset.card_filter_le (Finset.range Word.largest) space.Free
  rwa [Finset.card_range] at bound

theorem mem_vacancies (wellFormed : space.WellFormed) {address : Nat} :
    address ∈ space.vacancies ↔ space.Free address := by
  rw [vacancies, Finset.mem_filter, Finset.mem_range]
  exact and_iff_right_of_imp (wellFormed.bounded address)

/-- The bytes of a block are what one space has free more than another. -/
theorem card_vacancies_of_split (lessFormed : less.WellFormed) (moreFormed : more.WellFormed)
    (split : ∀ address, more.Free address ↔ less.Free address ∨ block.Covers address)
    (apart : ∀ address, block.Covers address → ¬ less.Free address) :
    more.vacancies.card = less.vacancies.card + block.size := by
  have parts : more.vacancies =
      less.vacancies ∪ Finset.Ico block.offset (block.offset + block.size) := by
    ext address
    rw [Finset.mem_union, mem_vacancies moreFormed, mem_vacancies lessFormed, Finset.mem_Ico]
    exact split address
  have disjoint : Disjoint less.vacancies
      (Finset.Ico block.offset (block.offset + block.size)) := by
    refine Finset.disjoint_left.mpr fun address free inBlock => ?_
    exact apart address (Finset.mem_Ico.mp inBlock) ((mem_vacancies lessFormed).mp free)
  rw [parts, Finset.card_union_of_disjoint disjoint, Nat.card_Ico, Nat.add_sub_cancel_left]

theorem card_vacancies_of_allocate (wellFormed : space.WellFormed)
    (given : space.allocate size = some (block, after)) :
    space.vacancies.card = after.vacancies.card + block.size := by
  rcases allocate_eq_some wellFormed given with ⟨afterFormed, _, _, wasFree, isFree⟩
  apply card_vacancies_of_split afterFormed wellFormed
  · intro address
    rw [isFree]
    by_cases inBlock : block.Covers address
    · simp [inBlock, wasFree address inBlock]
    · simp [inBlock]
  · intro address inBlock free
    exact ((isFree address).mp free).2 inBlock

/-! ## Capacities and marks -/

/-- The addresses below the mark that are not free. -/
def taken (space : FreeSpace) : Finset Nat :=
  (Finset.range space.highWater).filter fun address => ¬ space.Free address

theorem mem_taken {address : Nat} :
    address ∈ space.taken ↔ address < space.highWater ∧ ¬ space.Free address := by
  rw [taken, Finset.mem_filter, Finset.mem_range]

theorem card_taken_le (space : FreeSpace) : space.taken.card ≤ space.highWater := by
  have bound := Finset.card_filter_le (Finset.range space.highWater)
    fun address => ¬ space.Free address
  rwa [Finset.card_range] at bound

theorem marks_of_allocate (given : space.allocate size = some (block, after)) :
    after.capacity = space.capacity ∧
      after.highWater = max space.highWater (block.offset + block.size) := by
  unfold allocate at given
  split at given
  · rcases Prod.mk.inj (Option.some.inj given) with ⟨rfl, rfl⟩
    exact ⟨rfl, (Nat.max_zero _).symm⟩
  · rcases Option.map_eq_some_iff.mp given with ⟨⟨offset, remaining⟩, _, same⟩
    rcases Prod.mk.inj same with ⟨rfl, rfl⟩
    exact ⟨rfl, rfl⟩

theorem marks_of_release (done : space.release block = .ok after) :
    after.capacity = space.capacity ∧ after.highWater = space.highWater := by
  unfold release at done
  split at done
  · rw [Checked.pure_eq_ok] at done
    subst done
    exact ⟨rfl, rfl⟩
  · simp only [Checked.bind_eq_ok, Checked.pure_eq_ok] at done
    rcases done with ⟨_, _, _, _, rfl⟩
    exact ⟨rfl, rfl⟩

/-- A block that is given out is taken below the mark. -/
theorem card_taken_of_allocate (wellFormed : space.WellFormed)
    (given : space.allocate size = some (block, after)) :
    space.taken.card + block.size ≤ after.taken.card := by
  rcases allocate_eq_some wellFormed given with ⟨_, _, _, wasFree, isFree⟩
  have mark := (marks_of_allocate given).2
  have disjoint : Disjoint space.taken
      (Finset.Ico block.offset (block.offset + block.size)) := by
    refine Finset.disjoint_left.mpr fun address old inBlock => ?_
    exact (mem_taken.mp old).2 (wasFree address (Finset.mem_Ico.mp inBlock))
  have included : space.taken ∪ Finset.Ico block.offset (block.offset + block.size) ⊆
      after.taken := by
    intro address member
    rw [mem_taken, mark, isFree]
    rcases Finset.mem_union.mp member with old | inBlock
    · rcases mem_taken.mp old with ⟨below, occupied⟩
      exact ⟨below.trans_le (Nat.le_max_left _ _), fun free => occupied free.1⟩
    · have covers : block.Covers address := Finset.mem_Ico.mp inBlock
      exact ⟨covers.2.trans_le (Nat.le_max_right _ _), fun free => free.2 covers⟩
  have counted := Finset.card_le_card included
  rwa [Finset.card_union_of_disjoint disjoint, Nat.card_Ico, Nat.add_sub_cancel_left] at counted

/-- A block that comes back frees no more than its bytes. -/
theorem card_taken_of_release (wellFormed : space.WellFormed)
    (done : space.release block = .ok after) :
    space.taken.card ≤ after.taken.card + block.size := by
  rcases release_eq_ok wellFormed done with ⟨_, isFree, _⟩
  have mark := (marks_of_release done).2
  have included : space.taken ⊆
      after.taken ∪ Finset.Ico block.offset (block.offset + block.size) := by
    intro address member
    rcases mem_taken.mp member with ⟨below, occupied⟩
    rw [Finset.mem_union, mem_taken, mark, isFree, Finset.mem_Ico]
    by_cases covers : block.Covers address
    · exact Or.inr covers
    · exact Or.inl ⟨below, fun free => free.elim occupied covers⟩
  have counted := (Finset.card_le_card included).trans (Finset.card_union_le _ _)
  rwa [Nat.card_Ico, Nat.add_sub_cancel_left] at counted

end FreeSpace

namespace Allocator

/-! ## Counters -/

section

variable {allocator rest : Allocator} {type : TensorType} {block : Block}

/-- An allocation is counted, and the count may be a new peak. -/
theorem counters_of_allocate (given : allocator.allocate type = .ok (some (block, rest))) :
    rest.live = allocator.live + block.size ∧
      rest.peakLive = max allocator.peakLive (allocator.live + block.size) := by
  simp only [Allocator.allocate, Checked.bind_eq_ok] at given
  rcases given with ⟨size, _, given⟩
  split at given
  · simp at given
  · simp only [Checked.bind_eq_ok, Checked.pure_eq_ok, Option.some.injEq, Prod.mk.injEq] at given
    rcases given with ⟨live, counted, rfl, rfl⟩
    rcases Word.add_eq_ok.mp counted with ⟨rfl, _⟩
    exact ⟨rfl, rfl⟩

theorem counters_of_release (done : allocator.release block = .ok rest) :
    allocator.live = rest.live + block.size ∧ rest.peakLive = allocator.peakLive := by
  simp only [Allocator.release, Checked.bind_eq_ok, Checked.pure_eq_ok] at done
  rcases done with ⟨live, counted, space, _, rfl⟩
  exact ⟨Word.sub_eq_ok.mp counted, rfl⟩

/-- A block that is given out raises the mark to its end. -/
theorem highWater_of_allocate (given : allocator.allocate type = .ok (some (block, rest))) :
    rest.highWater = max allocator.highWater (block.offset + block.size) := by
  rcases space_of_allocate given with ⟨size, _, found⟩
  exact (FreeSpace.marks_of_allocate found).2

theorem highWater_of_release (done : allocator.release block = .ok rest) :
    rest.highWater = allocator.highWater :=
  (FreeSpace.marks_of_release (space_of_release done)).2

theorem rule_of_allocate (given : allocator.allocate type = .ok (some (block, rest))) :
    rest.rule = allocator.rule := by
  simp only [Allocator.allocate, Checked.bind_eq_ok] at given
  rcases given with ⟨size, _, given⟩
  split at given
  · simp at given
  · simp only [Checked.bind_eq_ok, Checked.pure_eq_ok, Option.some.injEq, Prod.mk.injEq] at given
    rcases given with ⟨live, _, _, rfl⟩
    rfl

theorem rule_of_release (done : allocator.release block = .ok rest) :
    rest.rule = allocator.rule := by
  simp only [Allocator.release, Checked.bind_eq_ok, Checked.pure_eq_ok] at done
  rcases done with ⟨live, _, space, _, rfl⟩
  rfl

/-- The bytes that are counted and those that are free fit into the words together. -/
theorem Reached.live_add_le (reached : allocator.Reached) :
    allocator.live + allocator.space.vacancies.card ≤ Word.largest := by
  induction reached with
  | new kind capacity rule fits =>
      change 0 + (FreeSpace.ofCapacity capacity).vacancies.card ≤ Word.largest
      rw [Nat.zero_add]
      exact FreeSpace.card_vacancies_le _
  | @allocate allocator after _ block before given inductionHypothesis =>
      rcases space_of_allocate given with ⟨size, _, found⟩
      have moved : allocator.space.vacancies.card = after.space.vacancies.card + block.size :=
        FreeSpace.card_vacancies_of_allocate before.wellFormed found
      have live := (counters_of_allocate given).1
      omega
  | @release allocator after block before done inductionHypothesis =>
      rcases FreeSpace.release_eq_ok before.wellFormed (space_of_release done) with
        ⟨wellFormed, isFree, taken⟩
      have moved : after.space.vacancies.card = allocator.space.vacancies.card + block.size :=
        FreeSpace.card_vacancies_of_split before.wellFormed wellFormed isFree taken
      have live := (counters_of_release done).1
      omega

/-- The bytes that are counted are taken below the mark. -/
theorem Reached.live_le_taken (reached : allocator.Reached) :
    allocator.live ≤ allocator.space.taken.card := by
  induction reached with
  | new kind capacity rule fits => exact Nat.zero_le _
  | @allocate allocator after _ block before given inductionHypothesis =>
      rcases space_of_allocate given with ⟨size, _, found⟩
      have grown := FreeSpace.card_taken_of_allocate before.wellFormed found
      have live := (counters_of_allocate given).1
      omega
  | @release allocator after block before done inductionHypothesis =>
      have shrunk := FreeSpace.card_taken_of_release before.wellFormed (space_of_release done)
      have live := (counters_of_release done).1
      omega

/-- Count, peak and mark of an allocator come in this order. -/
theorem Reached.live_le_peak_le_mark (reached : allocator.Reached) :
    allocator.live ≤ allocator.peakLive ∧ allocator.peakLive ≤ allocator.highWater := by
  induction reached with
  | new kind capacity rule fits => exact ⟨Nat.le_refl _, Nat.zero_le _⟩
  | @allocate allocator after _ block before given inductionHypothesis =>
      rcases counters_of_allocate given with ⟨live, peak⟩
      have mark := highWater_of_allocate given
      have below : after.live ≤ after.highWater :=
        (Reached.allocate before given).live_le_taken.trans after.space.card_taken_le
      omega
  | @release allocator after block before done inductionHypothesis =>
      rcases counters_of_release done with ⟨live, peak⟩
      have mark := highWater_of_release done
      omega

end

/-! ## Honest use -/

/-- An allocator in honest use, with the blocks that it has lent: it has only been given back
what it had given out. -/
inductive Honest : Allocator → List Block → Prop
  | new (kind : MemoryKind) (capacity : Option Nat) (rule : SizeRule)
      (fits : ∀ size, capacity = some size → size ≤ Word.largest) :
      Honest (.new kind capacity rule) []
  | allocate {allocator after : Allocator} {lent : List Block} {type : TensorType} {block : Block}
      (before : Honest allocator lent)
      (given : allocator.allocate type = .ok (some (block, after))) : Honest after (block :: lent)
  | release {allocator after : Allocator} {lent : List Block} {block : Block}
      (before : Honest allocator lent) (outstanding : block ∈ lent)
      (done : allocator.release block = .ok after) : Honest after (lent.erase block)

theorem Honest.reached {allocator : Allocator} {lent : List Block}
    (honest : allocator.Honest lent) : allocator.Reached := by
  induction honest with
  | new kind capacity rule fits => exact .new kind capacity rule fits
  | allocate _ given inductionHypothesis => exact .allocate inductionHypothesis given
  | release _ _ done inductionHypothesis => exact .release inductionHypothesis done

/-! ## Loans -/

/-- What an allocator has lent since it was in an earlier state and has not got back. -/
structure Lends (origin now : Allocator) (blocks : List Block) : Prop where
  reached : now.Reached
  rule : now.rule = origin.rule
  capacity : now.capacity = origin.capacity
  exact : ∀ address, now.space.Free address ↔
    origin.space.Free address ∧ ∀ block ∈ blocks, ¬ block.Covers address
  inside : ∀ block ∈ blocks, ∀ address, block.Covers address → origin.space.Free address
  fits : ∀ block ∈ blocks, block.Fits
  apart : blocks.Pairwise fun first second => ¬ first.Meets second
  live : now.live = origin.live + (blocks.map Block.size).sum

section

variable {origin now : Allocator} {blocks : List Block} {block : Block} {type : TensorType}
  {size : Nat}

theorem Reached.lends (reached : origin.Reached) : origin.Lends origin [] where
  reached := reached
  rule := rfl
  capacity := rfl
  exact address := by simp
  inside := List.forall_mem_nil _
  fits := List.forall_mem_nil _
  apart := .nil
  live := rfl

theorem Lends.perm {others : List Block} (lends : origin.Lends now blocks)
    (same : blocks.Perm others) : origin.Lends now others where
  reached := lends.reached
  rule := lends.rule
  capacity := lends.capacity
  exact address := by simp only [lends.exact, same.mem_iff]
  inside block member := lends.inside block (same.mem_iff.mpr member)
  fits block member := lends.fits block (same.mem_iff.mpr member)
  apart := by
    refine lends.apart.perm same ?_
    rintro first second away ⟨address, covers, otherCovers⟩
    exact away ⟨address, otherCovers, covers⟩
  live := by rw [lends.live, (same.map Block.size).sum_nat]

/-- Some addresses in a row are free that no block covers which is taken. -/
def HasGap (allocator : Allocator) (taken : Block → Prop) (size : Nat) : Prop :=
  ∃ offset, (∀ address, Block.Covers ⟨offset, size⟩ address → allocator.space.Free address) ∧
    ∀ block, taken block → ¬ block.Meets ⟨offset, size⟩

/-- A request is turned down exactly if what is lent leaves no gap for it. -/
theorem Lends.allocate_eq_none_iff (lends : origin.Lends now blocks) :
    now.space.allocate size = none ↔ size ≠ 0 ∧ ¬ origin.HasGap (· ∈ blocks) size := by
  rw [FreeSpace.allocate_eq_none_iff lends.reached.wellFormed, HasGap, not_exists]
  refine and_congr_right fun _ => forall_congr' fun offset => not_congr ?_
  simp only [lends.exact]
  constructor
  · intro free
    refine ⟨fun address covers => (free address covers).1, ?_⟩
    rintro block member ⟨address, inBlock, covers⟩
    exact (free address covers).2 block member inBlock
  · rintro ⟨wasFree, apart⟩ address covers
    exact ⟨wasFree address covers, fun block member inBlock =>
      apart block member ⟨address, inBlock, covers⟩⟩

/-- A block that is given out joins those that are lent. -/
theorem Lends.allocate {space : FreeSpace} (lends : origin.Lends now blocks)
    (sized : origin.sizeOf type = .ok size)
    (given : now.space.allocate size = some (block, space)) :
    ∃ rest, now.allocate type = .ok (some (block, rest)) ∧ origin.Lends rest (block :: blocks) := by
  have wellFormed := lends.reached.wellFormed
  rcases FreeSpace.allocate_eq_some wellFormed given with ⟨_, same, fits, wasFree, isFree⟩
  have counted : Word.add now.live block.size = .ok (now.live + block.size) := by
    have bound := lends.reached.live_add_le
    have moved := FreeSpace.card_vacancies_of_allocate wellFormed given
    exact Word.add_eq_ok.mpr ⟨rfl, by omega⟩
  let rest : Allocator := { now with
    space := space, live := now.live + block.size,
    peakLive := max now.peakLive (now.live + block.size) }
  have allocated : now.allocate type = .ok (some (block, rest)) := by
    have sizedNow : now.sizeOf type = .ok size := by rw [← sized, sizeOf, sizeOf, lends.rule]
    simp only [Allocator.allocate, sizedNow, Checked.bind_eq_ok]
    exact ⟨size, rfl, by rw [given]; exact Checked.bind_eq_ok.mpr ⟨_, counted, rfl⟩⟩
  refine ⟨rest, allocated, ?_⟩
  constructor
  · exact .allocate lends.reached allocated
  · exact lends.rule
  · exact (FreeSpace.marks_of_allocate given).1.trans lends.capacity
  · intro address
    change space.Free address ↔ _
    rw [isFree, lends.exact, List.forall_mem_cons, and_assoc]
    exact and_congr_right fun _ => And.comm
  · refine List.forall_mem_cons.mpr ⟨fun address covers => ?_, lends.inside⟩
    exact ((lends.exact address).mp (wasFree address covers)).1
  · exact List.forall_mem_cons.mpr ⟨fits, lends.fits⟩
  · refine List.pairwise_cons.mpr ⟨?_, lends.apart⟩
    rintro other earlier ⟨address, covers, otherCovers⟩
    exact ((lends.exact address).mp (wasFree address covers)).2 other earlier otherCovers
  · change now.live + block.size = _
    rw [lends.live, List.map_cons, List.sum_cons]
    omega

/-- A block that is lent can come back. -/
theorem Lends.release (lends : origin.Lends now (block :: blocks)) :
    ∃ rest, now.release block = .ok rest ∧ origin.Lends rest blocks := by
  have wellFormed := lends.reached.wellFormed
  rcases List.forall_mem_cons.mp lends.inside with ⟨blockInside, othersInside⟩
  rcases List.forall_mem_cons.mp lends.fits with ⟨blockFits, othersFit⟩
  rcases List.pairwise_cons.mp lends.apart with ⟨blockApart, othersApart⟩
  have taken : ∀ address, block.Covers address → ¬ now.space.Free address :=
    fun address covers free => ((lends.exact address).mp free).2 block List.mem_cons_self covers
  rcases FreeSpace.exists_release wellFormed blockFits taken with ⟨space, released⟩
  rcases FreeSpace.release_eq_ok wellFormed released with ⟨_, isFree, _⟩
  have live : now.live = origin.live + (blocks.map Block.size).sum + block.size := by
    rw [lends.live, List.map_cons, List.sum_cons]
    omega
  let rest : Allocator :=
    { now with live := origin.live + (blocks.map Block.size).sum, space := space }
  have done : now.release block = .ok rest := by
    simp only [Allocator.release, Checked.bind_eq_ok]
    exact ⟨_, Word.sub_eq_ok.mpr live, _, released, rfl⟩
  refine ⟨rest, done, ?_⟩
  constructor
  · exact .release lends.reached done
  · exact lends.rule
  · exact (FreeSpace.marks_of_release released).1.trans lends.capacity
  · intro address
    change space.Free address ↔ _
    rw [isFree, lends.exact, List.forall_mem_cons]
    constructor
    · rintro (⟨wasFree, -, others⟩ | covers)
      · exact ⟨wasFree, others⟩
      · exact ⟨blockInside address covers, fun other member otherCovers =>
          blockApart other member ⟨address, covers, otherCovers⟩⟩
    · rintro ⟨wasFree, others⟩
      by_cases covers : block.Covers address
      · exact Or.inr covers
      · exact Or.inl ⟨wasFree, covers, others⟩
  · exact othersInside
  · exact othersFit
  · exact othersApart
  · rfl

end

end Allocator
end TensorCompiler
