import Mathlib.Data.List.TakeWhile
import Mathlib.Tactic.Common
import TensorCompiler.Memory.Allocator
import TensorCompiler.Proofs.Outcome

namespace TensorCompiler

/-!
# Free space as a set of addresses

The spans of a free space stand for the addresses that they cover.  Seen this
way an allocation removes the addresses of the block it gives out, all of which
were free, and a release adds those of the block it takes back.  Splitting and
merging of spans only matter for the shape of the list: its spans stay in
address order, are never empty and never touch.
-/

/-- An address is one of a block's bytes. -/
def Block.Covers (block : Block) (address : Nat) : Prop :=
  block.offset ≤ address ∧ address < block.offset + block.size

instance (block : Block) (address : Nat) : Decidable (block.Covers address) :=
  inferInstanceAs (Decidable (_ ∧ _))

/-- An address lies in a span. -/
def Span.Covers (span : Span) (address : Nat) : Prop :=
  span.start ≤ address ∧ address < span.stop

namespace FreeSpace

/-! ## Lists of spans -/

/-- Some span covers the address. -/
def Covered (spans : List Span) (address : Nat) : Prop :=
  ∃ span ∈ spans, span.Covers address

/-- Spans in address order, none of them empty, no two touching. -/
structure InOrder (spans : List Span) : Prop where
  nonempty : ∀ span ∈ spans, span.start < span.stop
  apart : spans.Pairwise fun first second => first.stop < second.start

theorem covered_nil (address : Nat) : ¬ Covered [] address := by
  rintro ⟨span, member, _⟩
  cases member

theorem covered_cons {span : Span} {spans : List Span} {address : Nat} :
    Covered (span :: spans) address ↔ span.Covers address ∨ Covered spans address := by
  simp [Covered]

theorem covered_append {first second : List Span} {address : Nat} :
    Covered (first ++ second) address ↔ Covered first address ∨ Covered second address := by
  simp only [Covered, List.mem_append]
  constructor
  · rintro ⟨span, member | member, covers⟩
    · exact Or.inl ⟨span, member, covers⟩
    · exact Or.inr ⟨span, member, covers⟩
  · rintro (⟨span, member, covers⟩ | ⟨span, member, covers⟩)
    · exact ⟨span, Or.inl member, covers⟩
    · exact ⟨span, Or.inr member, covers⟩

theorem inOrder_nil : InOrder [] :=
  ⟨fun _ member => absurd member List.not_mem_nil, List.Pairwise.nil⟩

theorem inOrder_cons {span : Span} {spans : List Span} :
    InOrder (span :: spans) ↔
      span.start < span.stop ∧ (∀ later ∈ spans, span.stop < later.start) ∧ InOrder spans := by
  constructor
  · intro ordered
    rcases List.pairwise_cons.mp ordered.apart with ⟨before, apart⟩
    exact ⟨ordered.nonempty span List.mem_cons_self, before,
      fun later member => ordered.nonempty later (List.mem_cons_of_mem _ member), apart⟩
  · rintro ⟨nonempty, before, rest⟩
    refine ⟨?_, List.pairwise_cons.mpr ⟨before, rest.apart⟩⟩
    intro other member
    rcases List.mem_cons.mp member with rfl | later
    · exact nonempty
    · exact rest.nonempty other later

theorem inOrder_append {first second : List Span} :
    InOrder (first ++ second) ↔ InOrder first ∧ InOrder second ∧
      ∀ low ∈ first, ∀ high ∈ second, low.stop < high.start := by
  constructor
  · intro ordered
    rcases List.pairwise_append.mp ordered.apart with ⟨firstApart, secondApart, between⟩
    exact ⟨⟨fun span member => ordered.nonempty span (List.mem_append_left _ member), firstApart⟩,
      ⟨fun span member => ordered.nonempty span (List.mem_append_right _ member), secondApart⟩,
      between⟩
  · rintro ⟨firstOrdered, secondOrdered, between⟩
    refine ⟨?_, List.pairwise_append.mpr ⟨firstOrdered.apart, secondOrdered.apart, between⟩⟩
    intro span member
    rcases List.mem_append.mp member with low | high
    · exact firstOrdered.nonempty span low
    · exact secondOrdered.nonempty span high

/-- What is covered by spans that lie above another one lies above it. -/
theorem stop_lt_of_covered {span : Span} {spans : List Span}
    (before : ∀ later ∈ spans, span.stop < later.start) {address : Nat}
    (covered : Covered spans address) : span.stop < address := by
  rcases covered with ⟨later, member, low, _⟩
  exact Nat.lt_of_lt_of_le (before later member) low

/-- Two spans that touch cover together what the span over both covers. -/
theorem covers_join {first second : Span} (touch : first.stop = second.start)
    (firstOrdered : first.start ≤ first.stop) (secondOrdered : second.start ≤ second.stop)
    {address : Nat} :
    Span.Covers ⟨first.start, second.stop⟩ address ↔
      first.Covers address ∨ second.Covers address := by
  simp only [Span.Covers]
  omega

/-! ## Cutting bytes off -/

/-- The bytes of a block have been cut out of some spans.  What is left of a
span starts no lower. -/
structure CutFrom (spans : List Span) (block : Block) (remaining : List Span) : Prop where
  ordered : InOrder remaining
  covered : ∀ address, block.Covers address → Covered spans address
  exact : ∀ address, Covered remaining address ↔ Covered spans address ∧ ¬ block.Covers address
  origin : ∀ span ∈ remaining, ∃ old ∈ spans, old.start ≤ span.start

/-- The start of the first span has been cut off. -/
theorem cutFrom_head {head : Span} {rest : List Span} {size : Nat}
    (ordered : InOrder (head :: rest)) (positive : 0 < size) (fits : size ≤ head.length) :
    CutFrom (head :: rest) ⟨head.start, size⟩
      (if size < head.length then ⟨head.start + size, head.stop⟩ :: rest else rest) := by
  rcases inOrder_cons.mp ordered with ⟨headNonempty, headBefore, restOrdered⟩
  have headLength : head.length = head.stop - head.start := rfl
  refine ⟨?_, ?_, ?_, ?_⟩
  · split
    · exact inOrder_cons.mpr ⟨by simp only; omega, headBefore, restOrdered⟩
    · exact restOrdered
  · rintro address ⟨low, high⟩
    simp only at low high
    exact covered_cons.mpr (Or.inl ⟨low, by omega⟩)
  · intro address
    have restAbove : Covered rest address → head.stop < address := stop_lt_of_covered headBefore
    split
    · simp only [covered_cons, Span.Covers, Block.Covers]
      by_cases inRest : Covered rest address
      · have := restAbove inRest
        simp only [inRest, or_true, true_and, true_iff]
        omega
      · simp only [inRest, or_false]
        omega
    · simp only [covered_cons, Span.Covers, Block.Covers]
      by_cases inRest : Covered rest address
      · have := restAbove inRest
        simp only [inRest, or_true, true_and, true_iff]
        omega
      · simp only [inRest, or_false, false_iff]
        omega
  · intro span member
    split at member
    · rcases List.mem_cons.mp member with rfl | later
      · exact ⟨head, List.mem_cons_self, Nat.le_add_right _ _⟩
      · exact ⟨span, List.mem_cons_of_mem _ later, Nat.le_refl _⟩
    · exact ⟨span, List.mem_cons_of_mem _ member, Nat.le_refl _⟩

/-- The first span is kept when something is cut out of the others. -/
theorem CutFrom.tail {head : Span} {rest remaining : List Span} {block : Block}
    (cut : CutFrom rest block remaining) (ordered : InOrder (head :: rest)) :
    CutFrom (head :: rest) block (head :: remaining) := by
  rcases inOrder_cons.mp ordered with ⟨headNonempty, headBefore, _⟩
  refine ⟨inOrder_cons.mpr ⟨headNonempty, ?_, cut.ordered⟩, ?_, ?_, ?_⟩
  · intro later member
    rcases cut.origin later member with ⟨old, oldMember, below⟩
    exact Nat.lt_of_lt_of_le (headBefore old oldMember) below
  · intro address covers
    exact covered_cons.mpr (Or.inr (cut.covered address covers))
  · intro address
    -- The block comes from the rest, which lies above the first span.
    have elsewhere : head.Covers address → ¬ block.Covers address := by
      intro inHead covers
      have := stop_lt_of_covered headBefore (cut.covered address covers)
      exact Nat.lt_asymm inHead.2 this
    rw [covered_cons, covered_cons, cut.exact, or_and_right, and_iff_left_of_imp elsewhere]
  · intro span member
    rcases List.mem_cons.mp member with rfl | later
    · exact ⟨span, List.mem_cons_self, Nat.le_refl _⟩
    · rcases cut.origin span later with ⟨old, oldMember, below⟩
      exact ⟨old, List.mem_cons_of_mem _ oldMember, below⟩

/-- What is cut off was covered, and everything else stays as it was. -/
theorem cut_eq_some {size offset : Nat} {spans remaining : List Span} (ordered : InOrder spans)
    (positive : 0 < size) (found : cut size spans = some (offset, remaining)) :
    CutFrom spans ⟨offset, size⟩ remaining := by
  induction spans generalizing offset remaining with
  | nil => cases found
  | cons head rest inductionHypothesis =>
      unfold cut at found
      split at found
      · next fits =>
        rcases Prod.mk.inj (Option.some.inj found) with ⟨rfl, rfl⟩
        exact cutFrom_head ordered positive fits
      · rcases Option.map_eq_some_iff.mp found with ⟨⟨low, kept⟩, inner, same⟩
        rcases Prod.mk.inj same with ⟨rfl, rfl⟩
        exact (inductionHypothesis (inOrder_cons.mp ordered).2.2 inner).tail ordered

/-! ## Putting bytes back -/

/-- A span has been added to some spans that lie above its bytes. -/
structure PutBelow (span : Span) (above result : List Span) : Prop where
  ordered : InOrder result
  notBelow : ∀ next ∈ result, span.start ≤ next.start
  exact : ∀ address, Covered result address ↔ Covered above address ∨ span.Covers address
  beyond : ∀ address, Covered above address → span.stop ≤ address

private theorem putBefore_eq_ok {span : Span} {above result : List Span} (ordered : InOrder above)
    (nonempty : span.start < span.stop) (notBelow : ∀ next ∈ above, span.start ≤ next.start)
    (done : putBefore span above = .ok result) : PutBelow span above result := by
  cases above with
  | nil =>
      simp only [putBefore, Checked.pure_eq_ok] at done
      subst done
      refine ⟨inOrder_cons.mpr ⟨nonempty, fun later member => absurd member List.not_mem_nil,
        inOrder_nil⟩, ?_, ?_, fun address covered => absurd covered (covered_nil address)⟩
      · intro next member
        exact Nat.le_of_eq (congrArg Span.start (List.mem_singleton.mp member).symm)
      · intro address
        rw [covered_cons]
        exact Or.comm
  | cons next rest =>
      rcases inOrder_cons.mp ordered with ⟨nextNonempty, nextBefore, restOrdered⟩
      have nextNotBelow := notBelow next List.mem_cons_self
      rw [putBefore] at done
      split at done
      · exact absurd done Checked.abort_ne_ok
      · have beyond : ∀ address, Covered (next :: rest) address → span.stop ≤ address := by
          intro address covered
          rcases covered_cons.mp covered with inNext | inRest
          · have := inNext.1
            omega
          · have := stop_lt_of_covered nextBefore inRest
            omega
        split at done
        · next touches =>
          rw [Checked.pure_eq_ok] at done
          subst done
          refine ⟨inOrder_cons.mpr ⟨by simp only; omega, nextBefore, restOrdered⟩, ?_, ?_, beyond⟩
          · intro later member
            rcases List.mem_cons.mp member with rfl | inRest
            · exact Nat.le_refl _
            · exact notBelow later (List.mem_cons_of_mem _ inRest)
          · intro address
            rw [covered_cons, covered_cons,
              covers_join touches.symm (Nat.le_of_lt nonempty) (Nat.le_of_lt nextNonempty)]
            exact or_assoc.trans Or.comm
        · rw [Checked.pure_eq_ok] at done
          subst done
          refine ⟨inOrder_cons.mpr ⟨nonempty, ?_, ordered⟩, ?_, ?_, beyond⟩
          · intro later member
            rcases List.mem_cons.mp member with rfl | inRest
            · omega
            · have := nextBefore later inRest
              omega
          · intro later member
            rcases List.mem_cons.mp member with rfl | old
            · exact Nat.le_refl _
            · exact notBelow later old
          · intro address
            rw [covered_cons]
            exact Or.comm

/-- Spans that stop below what was added can stand before it. -/
private theorem PutBelow.after {span : Span} {lower above upper : List Span}
    (put : PutBelow span above upper) (lowerOrdered : InOrder lower)
    (below : ∀ low ∈ lower, low.stop < span.start) :
    InOrder (lower ++ upper) ∧ ∀ address, Covered (lower ++ upper) address ↔
      Covered (lower ++ above) address ∨ span.Covers address := by
  constructor
  · refine inOrder_append.mpr ⟨lowerOrdered, put.ordered, ?_⟩
    intro low lowMember high highMember
    exact Nat.lt_of_lt_of_le (below low lowMember) (put.notBelow high highMember)
  · intro address
    rw [covered_append, covered_append, put.exact, or_assoc]

/-- In spans in address order, those after the ones that start lower start no
lower. -/
theorem notBelow_of_dropWhile (start : Nat) {spans : List Span} (ordered : InOrder spans) :
    ∀ next ∈ spans.dropWhile (·.start < start), start ≤ next.start := by
  induction spans with
  | nil => intro next member; cases member
  | cons head rest inductionHypothesis =>
      rcases inOrder_cons.mp ordered with ⟨headNonempty, headBefore, restOrdered⟩
      by_cases lower : head.start < start
      · rw [List.dropWhile_cons_of_pos (by simpa using lower)]
        exact inductionHypothesis restOrdered
      · rw [List.dropWhile_cons_of_neg (by simpa using lower)]
        intro next member
        rcases List.mem_cons.mp member with rfl | later
        · omega
        · have := headBefore next later
          omega

/-- Putting a span back covers its addresses beside those covered before, and
none of them was covered. -/
theorem put_eq_ok {span : Span} {spans result : List Span} (ordered : InOrder spans)
    (nonempty : span.start < span.stop) (done : put span spans = .ok result) :
    InOrder result ∧
      (∀ address, Covered result address ↔ Covered spans address ∨ span.Covers address) ∧
      ∀ address, span.Covers address → ¬ Covered spans address := by
  have aboveStart := notBelow_of_dropWhile span.start ordered
  have belowStart : ∀ low ∈ spans.takeWhile (·.start < span.start), low.start < span.start := by
    intro low member
    simpa using List.mem_takeWhile_imp member
  unfold put at done
  generalize belowEq : spans.takeWhile (·.start < span.start) = below at done belowStart
  generalize aboveEq : spans.dropWhile (·.start < span.start) = above at done aboveStart
  have whole : spans = below ++ above := by
    rw [← belowEq, ← aboveEq, List.takeWhile_append_dropWhile]
  subst whole
  rcases inOrder_append.mp ordered with ⟨belowOrdered, aboveOrdered, between⟩
  simp only at done
  split at done
  · next noneBelow =>
    rcases List.getLast?_eq_none_iff.mp noneBelow with rfl
    have put := putBefore_eq_ok aboveOrdered nonempty aboveStart done
    refine ⟨put.ordered, put.exact, ?_⟩
    intro address inSpan covered
    exact Nat.not_lt_of_le (put.beyond address covered) inSpan.2
  · next previous isLast =>
    rcases List.getLast?_eq_some_iff.mp isLast with ⟨lower, rfl⟩
    rcases inOrder_append.mp belowOrdered with ⟨lowerOrdered, lastOrdered, lowerBefore⟩
    have lowerBelow : ∀ low ∈ lower, low.stop < previous.start := fun low member =>
      lowerBefore low member previous (List.mem_singleton_self _)
    have previousStart := belowStart previous (List.mem_append_right _ (List.mem_singleton_self _))
    have previousNonempty := (inOrder_cons.mp lastOrdered).1
    split at done
    · exact absurd done Checked.abort_ne_ok
    · next notInside =>
      have belowStops : ∀ low ∈ lower ++ [previous], low.stop ≤ span.start := by
        intro low member
        rcases List.mem_append.mp member with inLower | isPrevious
        · have := lowerBelow low inLower
          omega
        · rw [List.mem_singleton.mp isPrevious]
          omega
      have fresh : (∀ address, Covered above address → span.stop ≤ address) →
          ∀ address, span.Covers address → ¬ Covered (lower ++ [previous] ++ above) address := by
        intro beyond address inSpan covered
        rcases covered_append.mp covered with ⟨low, member, inLow⟩ | inAbove
        · have := belowStops low member
          exact Nat.not_lt_of_le inSpan.1 (Nat.lt_of_lt_of_le inLow.2 this)
        · exact Nat.not_lt_of_le (beyond address inAbove) inSpan.2
      split at done
      · -- The span continues the previous one, which it replaces.
        next touches =>
        rcases Checked.bind_eq_ok.mp done with ⟨upper, placed, same⟩
        rw [Checked.pure_eq_ok, List.dropLast_concat] at same
        subst same
        have joinedNonempty : (⟨previous.start, span.stop⟩ : Span).start < span.stop :=
          Nat.lt_trans previousStart nonempty
        have aboveJoined : ∀ next ∈ above, previous.start ≤ next.start := fun next member =>
          Nat.le_of_lt (Nat.lt_of_lt_of_le previousStart (aboveStart next member))
        have put := putBefore_eq_ok aboveOrdered joinedNonempty aboveJoined placed
        rcases put.after lowerOrdered lowerBelow with ⟨resultOrdered, exact⟩
        refine ⟨resultOrdered, ?_, fresh put.beyond⟩
        intro address
        rw [exact, covers_join touches (Nat.le_of_lt previousNonempty) (Nat.le_of_lt nonempty)]
        simp only [covered_append, covered_cons, covered_nil, or_false]
        tauto
      · next apart =>
        rcases Checked.bind_eq_ok.mp done with ⟨upper, placed, same⟩
        rw [Checked.pure_eq_ok] at same
        subst same
        have put := putBefore_eq_ok aboveOrdered nonempty aboveStart placed
        have below : ∀ low ∈ lower ++ [previous], low.stop < span.start := by
          intro low member
          rcases List.mem_append.mp member with inLower | isPrevious
          · exact Nat.lt_trans (lowerBelow low inLower) previousStart
          · rw [List.mem_singleton.mp isPrevious]
            omega
        rcases put.after belowOrdered below with ⟨resultOrdered, exact⟩
        exact ⟨resultOrdered, exact, fresh put.beyond⟩

/-! ## The free space of a memory -/

/-- An address is free. -/
def Free (space : FreeSpace) (address : Nat) : Prop :=
  Covered space.spans address

/-- The spans are in order and lie within the words. -/
structure WellFormed (space : FreeSpace) : Prop where
  ordered : InOrder space.spans
  bounded : ∀ address, space.Free address → address < Word.largest

theorem wellFormed_ofCapacity {capacity : Option Nat}
    (fits : ∀ size, capacity = some size → size ≤ Word.largest) :
    (ofCapacity capacity).WellFormed := by
  have limit : capacity.getD Word.largest ≤ Word.largest := by
    cases capacity with
    | none => exact Nat.le_refl _
    | some size => exact fits size rfl
  unfold ofCapacity
  by_cases none : capacity.getD Word.largest = 0
  · rw [if_pos none]
    exact ⟨inOrder_nil, fun address covered => absurd covered (covered_nil address)⟩
  · rw [if_neg none]
    constructor
    · exact inOrder_cons.mpr ⟨Nat.pos_of_ne_zero none,
        fun later member => absurd member List.not_mem_nil, inOrder_nil⟩
    · rintro address ⟨span, member, _, high⟩
      rw [List.mem_singleton.mp member] at high
      exact Nat.lt_of_lt_of_le high limit

/-- A block given out was free and is so no longer; nothing else changes. -/
theorem allocate_eq_some {space after : FreeSpace} {size : Nat} {block : Block}
    (wellFormed : space.WellFormed) (given : space.allocate size = some (block, after)) :
    after.WellFormed ∧ block.size = size ∧ block.offset + block.size ≤ Word.largest ∧
      (∀ address, block.Covers address → space.Free address) ∧
      ∀ address, after.Free address ↔ space.Free address ∧ ¬ block.Covers address := by
  unfold allocate at given
  split at given
  · next empty =>
    rcases Prod.mk.inj (Option.some.inj given) with ⟨rfl, rfl⟩
    have nothing : ∀ address, ¬ Block.Covers ⟨0, 0⟩ address := by
      rintro address ⟨_, high⟩
      simp only at high
      omega
    refine ⟨wellFormed, empty.symm, Nat.zero_le _, ?_, ?_⟩
    · intro address covers
      exact absurd covers (nothing address)
    · intro address
      exact (and_iff_left (nothing address)).symm
  · next positive =>
    rcases Option.map_eq_some_iff.mp given with ⟨⟨offset, remaining⟩, found, same⟩
    rcases Prod.mk.inj same with ⟨rfl, rfl⟩
    have cut := cut_eq_some wellFormed.ordered (Nat.pos_of_ne_zero positive) found
    refine ⟨⟨cut.ordered, ?_⟩, rfl, ?_, cut.covered, cut.exact⟩
    · intro address free
      exact wellFormed.bounded address ((cut.exact address).mp free).1
    · have last := wellFormed.bounded (offset + size - 1)
        (cut.covered _ ⟨by simp only; omega, by simp only; omega⟩)
      simp only
      omega

/-- A block taken back was not free and is free again; nothing else changes. -/
theorem release_eq_ok {space after : FreeSpace} {block : Block} (wellFormed : space.WellFormed)
    (done : space.release block = .ok after) :
    after.WellFormed ∧
      (∀ address, after.Free address ↔ space.Free address ∨ block.Covers address) ∧
      ∀ address, block.Covers address → ¬ space.Free address := by
  unfold release at done
  split at done
  · next empty =>
    rw [Checked.pure_eq_ok] at done
    subst done
    have nothing : ∀ address, ¬ block.Covers address := by
      rintro address ⟨low, high⟩
      omega
    refine ⟨wellFormed, ?_, ?_⟩
    · intro address
      exact (or_iff_left (nothing address)).symm
    · intro address covers
      exact absurd covers (nothing address)
  · next positive =>
    simp only [Checked.bind_eq_ok, Checked.pure_eq_ok, Block.stop, Word.add, Word.check] at done
    rcases done with ⟨stop, inRange, spans, placed, rfl⟩
    split at inRange
    · next fits =>
      rcases Except.ok.inj inRange with rfl
      have nonempty : (⟨block.offset, block.offset + block.size⟩ : Span).start <
          block.offset + block.size := by
        simp only
        omega
      rcases put_eq_ok wellFormed.ordered nonempty placed with ⟨ordered, exact, fresh⟩
      refine ⟨⟨ordered, ?_⟩, exact, fresh⟩
      intro address free
      rcases (exact address).mp free with old | ⟨_, high⟩
      · exact wellFormed.bounded address old
      · exact Nat.lt_of_lt_of_le high fits
    · exact absurd inRange Checked.abort_ne_ok

end FreeSpace

/-! ## Allocators -/

namespace Allocator

/-- The allocators that there can be: new ones over at most a word of bytes,
and what allocating and releasing make of them. -/
inductive Reached : Allocator → Prop where
  | new (kind : MemoryKind) (capacity : Option Nat) (rule : SizeRule)
      (fits : ∀ size, capacity = some size → size ≤ Word.largest) :
      Reached (.new kind capacity rule)
  | allocate {allocator after : Allocator} {type : TensorType} {block : Block}
      (before : Reached allocator)
      (given : allocator.allocate type = .ok (some (block, after))) : Reached after
  | release {allocator after : Allocator} {block : Block} (before : Reached allocator)
      (done : allocator.release block = .ok after) : Reached after

/-- An allocation takes its block from the free space. -/
theorem space_of_allocate {allocator after : Allocator} {type : TensorType} {block : Block}
    (given : allocator.allocate type = .ok (some (block, after))) :
    ∃ size, allocator.sizeOf type = .ok size ∧
      allocator.space.allocate size = some (block, after.space) := by
  simp only [Allocator.allocate, Checked.bind_eq_ok] at given
  rcases given with ⟨size, sized, given⟩
  refine ⟨size, sized, ?_⟩
  split at given
  · simp at given
  · next found =>
    simp only [Checked.bind_eq_ok, Checked.pure_eq_ok, Option.some.injEq, Prod.mk.injEq] at given
    rcases given with ⟨live, _, rfl, rfl⟩
    exact found

/-- A release returns its block to the free space. -/
theorem space_of_release {allocator after : Allocator} {block : Block}
    (done : allocator.release block = .ok after) :
    allocator.space.release block = .ok after.space := by
  simp only [Allocator.release, Checked.bind_eq_ok, Checked.pure_eq_ok] at done
  rcases done with ⟨live, _, space, released, rfl⟩
  exact released

theorem Reached.wellFormed {allocator : Allocator} (reached : Reached allocator) :
    allocator.space.WellFormed := by
  induction reached with
  | new kind capacity rule fits => exact FreeSpace.wellFormed_ofCapacity fits
  | allocate _ given inductionHypothesis =>
      rcases space_of_allocate given with ⟨size, _, found⟩
      exact (FreeSpace.allocate_eq_some inductionHypothesis found).1
  | release _ done inductionHypothesis =>
      exact (FreeSpace.release_eq_ok inductionHypothesis (space_of_release done)).1

end Allocator

end TensorCompiler
