import Mathlib.Algebra.GroupWithZero.Nat
import Mathlib.Data.List.Pairwise
import TensorCompiler.Proofs.Schedule.Buffers

namespace TensorCompiler

/-!
# Room above a ceiling

A memory without a fixed size never runs out for a program whose buffers fit into it
side by side.  The reason is that requests are served from the lowest span that is long
enough.  If everything from some ceiling on is free, then a block ends at most its own
size above the ceiling, however the space below is cut up.  So the sum of all sizes
asked for so far is a ceiling, whatever has been taken back in between.
-/

namespace FreeSpace

variable {spans : List Span} {span : Span} {size : Nat}

/-- A request is served at or below any span that is long enough. -/
theorem exists_cut (ordered : InOrder spans) (member : span ∈ spans) (long : size ≤ span.length) :
    ∃ offset remaining, cut size spans = some (offset, remaining) ∧ offset ≤ span.start := by
  induction spans with
  | nil => cases member
  | cons head rest inductionHypothesis =>
      rcases inOrder_cons.mp ordered with ⟨headNonempty, headBefore, restOrdered⟩
      unfold cut
      by_cases fits : size ≤ head.length
      · rw [if_pos fits]
        refine ⟨_, _, rfl, ?_⟩
        rcases List.mem_cons.mp member with rfl | later
        · exact Nat.le_refl _
        · exact Nat.le_of_lt (Nat.lt_trans headNonempty (headBefore span later))
      · rw [if_neg fits]
        rcases List.mem_cons.mp member with rfl | later
        · exact absurd long fits
        · rcases inductionHypothesis restOrdered later with ⟨offset, remaining, found, low⟩
          exact ⟨offset, head :: remaining, by rw [found, Option.map_some], low⟩

/-- Spans in order that meet or touch are the same span. -/
theorem InOrder.eq_of_touch {first second : Span} (ordered : InOrder spans)
    (firstMember : first ∈ spans) (secondMember : second ∈ spans)
    (low : first.start ≤ second.stop) (high : second.start ≤ first.stop) : first = second := by
  by_contra different
  have symmetric : Std.Symm fun first second : Span =>
      first.stop < second.start ∨ second.stop < first.start := ⟨fun _ _ => Or.symm⟩
  have away : spans.Pairwise fun first second : Span =>
      first.stop < second.start ∨ second.stop < first.start := ordered.apart.imp Or.inl
  rcases away.forall firstMember secondMember different with before | after
  · omega
  · omega

/-- Addresses in a row that are all covered lie in one span, since spans do not touch. -/
theorem exists_span {start stop : Nat} (ordered : InOrder spans) (nonempty : start < stop)
    (covered : ∀ address, start ≤ address → address < stop → Covered spans address) :
    ∃ span ∈ spans, span.start ≤ start ∧ stop ≤ span.stop := by
  rcases covered start (Nat.le_refl _) nonempty with ⟨span, member, low, high⟩
  refine ⟨span, member, low, ?_⟩
  by_contra short
  rcases covered span.stop (by omega) (by omega) with ⟨other, otherMember, otherLow, otherHigh⟩
  have same := ordered.eq_of_touch member otherMember (by omega) otherLow
  exact Nat.lt_irrefl _ (same ▸ otherHigh)

/-- Bytes that are all covered lie in one span, which is then long enough for them. -/
theorem exists_long_span {offset : Nat} (ordered : InOrder spans) (positive : size ≠ 0)
    (covered : ∀ address, Block.Covers ⟨offset, size⟩ address → Covered spans address) :
    ∃ span ∈ spans, span.start ≤ offset ∧ size ≤ span.length := by
  have nonempty : offset < offset + size := by omega
  rcases exists_span ordered nonempty (fun address above below => covered address ⟨above, below⟩)
    with ⟨span, member, low, high⟩
  refine ⟨span, member, low, ?_⟩
  unfold Span.length
  omega

theorem exists_putBefore {above : List Span} (clear : ∀ next ∈ above, span.stop ≤ next.start) :
    ∃ result, putBefore span above = .ok result := by
  cases above with
  | nil => exact ⟨_, rfl⟩
  | cons next rest =>
      have := clear next List.mem_cons_self
      rw [putBefore, if_neg (by omega)]
      split
      · exact ⟨_, rfl⟩
      · exact ⟨_, rfl⟩

/-- A span none of whose addresses is covered can be put back. -/
theorem exists_put (ordered : InOrder spans) (nonempty : span.start < span.stop)
    (fresh : ∀ address, span.Covers address → ¬ Covered spans address) :
    ∃ result, put span spans = .ok result := by
  have whole : spans.takeWhile (·.start < span.start) ++ spans.dropWhile (·.start < span.start) =
      spans := List.takeWhile_append_dropWhile
  have above : ∀ next ∈ spans.dropWhile (·.start < span.start), span.stop ≤ next.start := by
    intro next member
    have notBelow := notBelow_of_dropWhile span.start ordered next member
    have listed : next ∈ spans := by
      rw [← whole]
      exact List.mem_append_right _ member
    by_contra inside
    exact fresh next.start ⟨notBelow, by omega⟩
      ⟨next, listed, Nat.le_refl _, ordered.nonempty next listed⟩
  unfold put
  simp only
  cases below : (spans.takeWhile (·.start < span.start)).getLast? with
  | none => exact exists_putBefore above
  | some previous =>
      have member := List.mem_of_getLast? below
      have lower : previous.start < span.start := by
        simpa using List.mem_takeWhile_imp member
      have listed : previous ∈ spans := by
        rw [← whole]
        exact List.mem_append_left _ member
      have ended : ¬ span.start < previous.stop := fun inside =>
        fresh span.start ⟨Nat.le_refl _, nonempty⟩
          ⟨previous, listed, Nat.le_of_lt lower, inside⟩
      simp only [if_neg ended]
      split
      · rcases @exists_putBefore ⟨previous.start, span.stop⟩ _ above with ⟨upper, placed⟩
        exact ⟨_, Checked.bind_eq_ok.mpr ⟨upper, placed, rfl⟩⟩
      · rcases exists_putBefore above with ⟨upper, placed⟩
        exact ⟨_, Checked.bind_eq_ok.mpr ⟨upper, placed, rfl⟩⟩

/-- Everything from some ceiling on is free. -/
def Clear (space : FreeSpace) (ceiling : Nat) : Prop :=
  ∀ address, ceiling ≤ address → address < Word.largest → space.Free address

variable {space : FreeSpace} {ceiling : Nat} {block : Block}

theorem clear_unbounded : (ofCapacity none).Clear 0 := by
  intro address _ inside
  exact ⟨⟨0, Word.largest⟩, List.mem_cons_self, Nat.zero_le _, inside⟩

/-- A request is served no higher than at any offset at which all its bytes are free. -/
theorem offset_le_of_allocate {after : FreeSpace} {offset : Nat} (wellFormed : space.WellFormed)
    (free : ∀ address, Block.Covers ⟨offset, size⟩ address → space.Free address)
    (given : space.allocate size = some (block, after)) : block.offset ≤ offset := by
  unfold allocate at given
  by_cases empty : size = 0
  · rw [if_pos empty] at given
    rcases Prod.mk.inj (Option.some.inj given) with ⟨rfl, -⟩
    exact Nat.zero_le _
  · rw [if_neg empty] at given
    rcases exists_long_span wellFormed.ordered empty free with ⟨span, member, below, long⟩
    rcases exists_cut wellFormed.ordered member long with ⟨lowest, remaining, found, bound⟩
    rw [found, Option.map_some] at given
    rcases Prod.mk.inj (Option.some.inj given) with ⟨rfl, -⟩
    exact Nat.le_trans bound below

/-- A request that fits above the ceiling is served from below it, and raises it by no more
than its size. -/
theorem clear_of_allocate {after : FreeSpace} (wellFormed : space.WellFormed)
    (clear : space.Clear ceiling) (room : ceiling + size ≤ Word.largest)
    (given : space.allocate size = some (block, after)) :
    block.offset + block.size ≤ ceiling + size ∧ after.Clear (ceiling + size) := by
  rcases allocate_eq_some wellFormed given with ⟨-, sameSize, -, -, isFree⟩
  have low : block.offset ≤ ceiling := offset_le_of_allocate wellFormed
    (fun address covers => clear address covers.1 (Nat.lt_of_lt_of_le covers.2 room)) given
  refine ⟨by omega, fun address above inside => ?_⟩
  refine (isFree address).mpr ⟨clear address (by omega) inside, ?_⟩
  rintro ⟨-, covered⟩
  omega

/-- A block that is not free can be taken back. -/
theorem exists_release (wellFormed : space.WellFormed) (fits : block.Fits)
    (taken : ∀ address, block.Covers address → ¬ space.Free address) :
    ∃ after, space.release block = .ok after := by
  unfold release
  by_cases empty : block.size = 0
  · rw [if_pos empty]
    exact ⟨space, rfl⟩
  rw [if_neg empty]
  have nonempty : block.offset < block.offset + block.size := by omega
  rcases @exists_put _ ⟨block.offset, block.offset + block.size⟩ wellFormed.ordered nonempty taken
    with ⟨spans, placed⟩
  simp only [Checked.bind_eq_ok, Checked.pure_eq_ok]
  exact ⟨_, _, Block.stop_eq_ok fits, spans, placed, rfl⟩

end FreeSpace
end TensorCompiler
