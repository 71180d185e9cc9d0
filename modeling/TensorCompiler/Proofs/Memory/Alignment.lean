import TensorCompiler.Proofs.Evaluation.Tensors
import TensorCompiler.Proofs.Memory.Lending

namespace TensorCompiler

/-!
# Alignment

No offset is ever rounded.  A rule that pads reserves multiples of a unit only, and this
is enough to keep all offsets at multiples of it as well: a block is cut off the start of a
free span, what is left of the span starts where the block ends, and a span that grows when
a block comes back starts where it started before or where the block does.

Only the starts of the spans matter.  Their ends need not be multiples of anything, since
the last span ends where the memory does.
-/

/-! ## Sizes -/

namespace SizeRule

/-- A rule reserves multiples of a unit only. -/
def Pads (rule : SizeRule) (unit : Nat) : Prop :=
  ∀ type size, rule.bytes type = .ok size → unit ∣ size

/-- A rule reserves enough for the elements side by side, whose size is a word then. -/
def Covers (rule : SizeRule) : Prop :=
  ∀ type size, rule.bytes type = .ok size → ∃ dense, type.bytes = .ok dense ∧ dense ≤ size

end SizeRule

/-! ## Offsets -/

/-- A block that starts and ends at multiples of a unit. -/
structure Block.Aligned (unit : Nat) (block : Block) : Prop where
  offset : unit ∣ block.offset
  size : unit ∣ block.size

/-- A block that is aligned to every unit that a rule pads to. -/
def Block.AlignedUnder (rule : SizeRule) (block : Block) : Prop :=
  ∀ unit, rule.Pads unit → block.Aligned unit

namespace FreeSpace

/-- Every free span starts at a multiple of a unit. -/
def Aligned (unit : Nat) (space : FreeSpace) : Prop :=
  ∀ span ∈ space.spans, unit ∣ span.start

variable {space after : FreeSpace} {unit size offset : Nat} {block : Block} {span : Span}
  {spans remaining : List Span}

theorem aligned_ofCapacity (unit : Nat) (capacity : Option Nat) :
    (ofCapacity capacity).Aligned unit := by
  intro span member
  simp only [ofCapacity] at member
  split at member
  · cases member
  · rcases List.mem_singleton.mp member with rfl
    exact Nat.dvd_zero unit

theorem dvd_of_cut (starts : ∀ span ∈ spans, unit ∣ span.start) (padded : unit ∣ size)
    (found : cut size spans = some (offset, remaining)) :
    unit ∣ offset ∧ ∀ span ∈ remaining, unit ∣ span.start := by
  induction spans generalizing remaining with
  | nil => cases found
  | cons head rest inductionHypothesis =>
      rcases List.forall_mem_cons.mp starts with ⟨headStart, restStarts⟩
      unfold cut at found
      split at found
      · rcases Prod.mk.inj (Option.some.inj found) with ⟨rfl, rfl⟩
        refine ⟨headStart, ?_⟩
        split
        · exact List.forall_mem_cons.mpr ⟨Nat.dvd_add headStart padded, restStarts⟩
        · exact restStarts
      · rcases Option.map_eq_some_iff.mp found with ⟨⟨offset, remaining⟩, further, same⟩
        rcases Prod.mk.inj same with ⟨rfl, rfl⟩
        rcases inductionHypothesis restStarts further with ⟨offsetAligned, remainingStarts⟩
        exact ⟨offsetAligned, List.forall_mem_cons.mpr ⟨headStart, remainingStarts⟩⟩

theorem Aligned.allocate (aligned : space.Aligned unit) (padded : unit ∣ size)
    (given : space.allocate size = some (block, after)) :
    block.Aligned unit ∧ after.Aligned unit := by
  unfold FreeSpace.allocate at given
  split at given
  · rcases Prod.mk.inj (Option.some.inj given) with ⟨rfl, rfl⟩
    exact ⟨⟨Nat.dvd_zero unit, Nat.dvd_zero unit⟩, aligned⟩
  · rcases Option.map_eq_some_iff.mp given with ⟨⟨offset, remaining⟩, found, same⟩
    rcases Prod.mk.inj same with ⟨rfl, rfl⟩
    rcases dvd_of_cut aligned padded found with ⟨offsetAligned, starts⟩
    exact ⟨⟨offsetAligned, padded⟩, starts⟩

theorem dvd_of_putBefore {above : List Span} (start : unit ∣ span.start)
    (starts : ∀ next ∈ above, unit ∣ next.start) (done : putBefore span above = .ok remaining) :
    ∀ next ∈ remaining, unit ∣ next.start := by
  unfold putBefore at done
  split at done
  · rcases Checked.pure_eq_ok.mp done with rfl
    exact List.forall_mem_singleton.mpr start
  · next next rest =>
    have restStarts := (List.forall_mem_cons.mp starts).2
    split at done
    · exact absurd done Checked.abort_ne_ok
    · split at done
      · rcases Checked.pure_eq_ok.mp done with rfl
        exact List.forall_mem_cons.mpr ⟨start, restStarts⟩
      · rcases Checked.pure_eq_ok.mp done with rfl
        exact List.forall_mem_cons.mpr ⟨start, starts⟩

/-- A span that comes back starts at a multiple or is joined to the end of one that does. -/
theorem dvd_of_put (start : unit ∣ span.start) (starts : ∀ other ∈ spans, unit ∣ other.start)
    (done : put span spans = .ok remaining) : ∀ other ∈ remaining, unit ∣ other.start := by
  have below : ∀ other ∈ spans.takeWhile (·.start < span.start), unit ∣ other.start :=
    fun other member => starts other (List.takeWhile_subset _ member)
  have above : ∀ other ∈ spans.dropWhile (·.start < span.start), unit ∣ other.start :=
    fun other member => starts other (List.dropWhile_subset _ member)
  simp only [put] at done
  split at done
  · exact dvd_of_putBefore start above done
  · next previous last =>
    split at done
    · exact absurd done Checked.abort_ne_ok
    · split at done
      · simp only [Checked.bind_eq_ok, Checked.pure_eq_ok] at done
        rcases done with ⟨upper, joined, rfl⟩
        have joinedStarts : ∀ other ∈ upper, unit ∣ other.start := by
          refine dvd_of_putBefore ?_ above joined
          exact below previous (List.mem_of_getLast? last)
        exact List.forall_mem_append.mpr
          ⟨fun other member => below other (List.mem_of_mem_dropLast member), joinedStarts⟩
      · simp only [Checked.bind_eq_ok, Checked.pure_eq_ok] at done
        rcases done with ⟨upper, placed, rfl⟩
        exact List.forall_mem_append.mpr ⟨below, dvd_of_putBefore start above placed⟩

theorem Aligned.release (aligned : space.Aligned unit) (start : unit ∣ block.offset)
    (done : space.release block = .ok after) : after.Aligned unit := by
  unfold FreeSpace.release at done
  split at done
  · rcases Checked.pure_eq_ok.mp done with rfl
    exact aligned
  · simp only [Checked.bind_eq_ok, Checked.pure_eq_ok] at done
    rcases done with ⟨stop, _, spans, placed, rfl⟩
    exact dvd_of_put start aligned placed

end FreeSpace

/-! ## Allocators -/

namespace Allocator

/-- The free spans start at multiples of what the rule pads to. -/
def Aligned (allocator : Allocator) : Prop :=
  ∀ unit, allocator.rule.Pads unit → allocator.space.Aligned unit

variable {allocator rest : Allocator} {type : TensorType} {block : Block} {lent : List Block}

theorem sizeOf_of_allocate (given : allocator.allocate type = .ok (some (block, rest))) :
    allocator.sizeOf type = .ok block.size := by
  rcases space_of_allocate given with ⟨size, sized, found⟩
  unfold FreeSpace.allocate at found
  split at found
  · next empty =>
    rcases Prod.mk.inj (Option.some.inj found) with ⟨rfl, _⟩
    exact empty ▸ sized
  · rcases Option.map_eq_some_iff.mp found with ⟨_, _, same⟩
    rcases Prod.mk.inj same with ⟨rfl, _⟩
    exact sized

theorem Aligned.allocate (aligned : allocator.Aligned)
    (given : allocator.allocate type = .ok (some (block, rest))) :
    block.AlignedUnder allocator.rule ∧ rest.Aligned := by
  rcases space_of_allocate given with ⟨size, sized, found⟩
  have both : ∀ unit, allocator.rule.Pads unit →
      block.Aligned unit ∧ rest.space.Aligned unit := by
    intro unit pads
    exact (aligned unit pads).allocate (pads type size sized) found
  rw [Aligned, rule_of_allocate given]
  exact ⟨fun unit pads => (both unit pads).1, fun unit pads => (both unit pads).2⟩

theorem Aligned.release (aligned : allocator.Aligned)
    (start : ∀ unit, allocator.rule.Pads unit → unit ∣ block.offset)
    (done : allocator.release block = .ok rest) : rest.Aligned := by
  rw [Aligned, rule_of_release done]
  intro unit pads
  exact (aligned unit pads).release (start unit pads) (space_of_release done)

/-- Honest use keeps an allocator aligned, along with all that it has lent. -/
theorem Honest.aligned (honest : allocator.Honest lent) :
    allocator.Aligned ∧ ∀ block ∈ lent, block.AlignedUnder allocator.rule := by
  induction honest with
  | new kind capacity rule fits =>
      refine ⟨fun unit _ => FreeSpace.aligned_ofCapacity unit capacity, ?_⟩
      intro block member
      cases member
  | allocate _ given inductionHypothesis =>
      rcases inductionHypothesis with ⟨aligned, blocks⟩
      rcases aligned.allocate given with ⟨blockAligned, restAligned⟩
      rw [rule_of_allocate given]
      exact ⟨restAligned, List.forall_mem_cons.mpr ⟨blockAligned, blocks⟩⟩
  | release _ outstanding done inductionHypothesis =>
      rcases inductionHypothesis with ⟨aligned, blocks⟩
      rw [rule_of_release done]
      exact ⟨aligned.release (fun unit pads => (blocks _ outstanding unit pads).offset) done,
        fun other member => blocks other (List.mem_of_mem_erase member)⟩

end Allocator

end TensorCompiler
