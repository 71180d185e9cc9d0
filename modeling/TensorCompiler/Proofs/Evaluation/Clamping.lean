import Mathlib.Data.Int.Order.Basic
import Mathlib.Data.List.Induction
import Mathlib.Order.MinMax
import TensorCompiler.Operator

namespace TensorCompiler

/-!
# Clamps in a row

A clamp raises a value to the lower bound and then lowers it to the upper one.  Values are
compared in the total order, so two results count as the same if they agree there: the zeros
are not told apart, nor are the NaNs.

A clamp acts on the bounds of another one as it acts on any value.  The bounds of `intersect`
are the bounds of the first range after the clamp to the second, and this is why one clamp can
stand for two: both raise to the clamped lower bound and lower to the clamped upper one.  It
takes that the second range is ordered.  The first need not be.
-/

namespace Binary32

variable {first second : Binary32}

theorem agrees_iff : first.agrees second = true ↔ first.orderKey = second.orderKey :=
  beq_iff_eq

theorem le_iff : first ≤ second ↔ first.orderKey ≤ second.orderKey :=
  Iff.rfl

@[simp] theorem orderKey_greater (first second : Binary32) :
    (first.greater second).orderKey = first.orderKey ⊔ second.orderKey := by
  rw [greater]
  split
  next above => exact (max_eq_left (Int.le_of_lt above)).symm
  next notAbove => exact (max_eq_right (Int.not_lt.mp notAbove)).symm

@[simp] theorem orderKey_lesser (first second : Binary32) :
    (first.lesser second).orderKey = first.orderKey ⊓ second.orderKey := by
  rw [lesser]
  split
  next below => exact (min_eq_right (Int.le_of_lt below)).symm
  next notBelow => exact (min_eq_left (Int.not_lt.mp notBelow)).symm

end Binary32

namespace ClampRange

variable {first second third : ClampRange}

/-- Bring a value into a range. -/
def clamp (range : ClampRange) (value : Binary32) : Binary32 :=
  (value.greater range.min).lesser range.max

/-- The lower bound is not above the upper one. -/
def Ordered (range : ClampRange) : Prop :=
  range.min ≤ range.max

instance (range : ClampRange) : Decidable range.Ordered :=
  inferInstanceAs (Decidable (range.min ≤ range.max))

theorem agrees_iff : first.agrees second = true ↔
    first.min.orderKey = second.min.orderKey ∧ first.max.orderKey = second.max.orderKey := by
  rw [agrees, Bool.and_eq_true, Binary32.agrees_iff, Binary32.agrees_iff]

@[simp] theorem orderKey_clamp (range : ClampRange) (value : Binary32) :
    (range.clamp value).orderKey =
      (value.orderKey ⊔ range.min.orderKey) ⊓ range.max.orderKey := by
  rw [clamp, Binary32.orderKey_lesser, Binary32.orderKey_greater]

theorem clamp_congr (range : ClampRange) {value other : Binary32}
    (same : value.orderKey = other.orderKey) :
    (range.clamp value).orderKey = (range.clamp other).orderKey := by
  rw [orderKey_clamp, orderKey_clamp, same]

theorem clamp_mono (range : ClampRange) {value other : Binary32} (below : value ≤ other) :
    range.clamp value ≤ range.clamp other := by
  rw [Binary32.le_iff, orderKey_clamp, orderKey_clamp]
  exact min_le_min_right _ (max_le_max_right _ below)

/-! ## The bounds of an intersection -/

theorem min_intersect (first second : ClampRange) :
    (first.intersect second).min = second.clamp first.min :=
  rfl

theorem orderKey_max_intersect (first : ClampRange) (ordered : second.Ordered) :
    (first.intersect second).max.orderKey = (second.clamp first.max).orderKey := by
  have bounds : second.min.orderKey ≤ second.max.orderKey := ordered
  rw [intersect, Binary32.orderKey_greater, Binary32.orderKey_lesser, orderKey_clamp,
    max_min_distrib_right, max_eq_left bounds]

theorem Ordered.intersect (firstOrdered : first.Ordered) (secondOrdered : second.Ordered) :
    (first.intersect second).Ordered := by
  rw [Ordered, Binary32.le_iff, min_intersect, orderKey_max_intersect first secondOrdered]
  exact second.clamp_mono firstOrdered

/-! ## One clamp for many -/

/-- Since a clamp keeps the order, it can be moved past the raising and the lowering of another
one, onto the bounds.  What it would still do to the value, it does to the upper bound. -/
theorem orderKey_clamp_intersect (first : ClampRange) (ordered : second.Ordered)
    (value : Binary32) :
    ((first.intersect second).clamp value).orderKey =
      (second.clamp (first.clamp value)).orderKey := by
  rw [orderKey_clamp, min_intersect, orderKey_max_intersect first ordered]
  simp only [orderKey_clamp]
  generalize value.orderKey = key, first.min.orderKey = low, first.max.orderKey = high,
    second.min.orderKey = bottom, second.max.orderKey = top
  calc (key ⊔ (low ⊔ bottom) ⊓ top) ⊓ ((high ⊔ bottom) ⊓ top)
      = (key ⊔ low ⊔ bottom) ⊓ (key ⊔ top) ⊓ ((high ⊔ bottom) ⊓ top) := by
        rw [max_min_distrib_left, max_assoc]
    _ = (key ⊔ low ⊔ bottom) ⊓ (high ⊔ bottom) ⊓ ((key ⊔ top) ⊓ top) :=
        inf_inf_inf_comm _ _ _ _
    _ = ((key ⊔ low) ⊓ high ⊔ bottom) ⊓ top := by
        rw [max_min_distrib_right, min_eq_right (le_max_right key top)]

theorem orderKey_clamp_foldl_intersect {chain : List ClampRange}
    (ordered : ∀ range ∈ chain, range.Ordered) (start : ClampRange) (value : Binary32) :
    ((chain.foldl ClampRange.intersect start).clamp value).orderKey =
      (chain.foldl (fun result range => range.clamp result) (start.clamp value)).orderKey := by
  -- The induction takes the last clamp off, so that it acts on values that agree.
  induction chain using List.reverseRecOn with
  | nil => rfl
  | append_singleton front last inductionHypothesis =>
      rcases List.forall_mem_append.mp ordered with ⟨frontOrdered, lastOrdered⟩
      simp only [List.foldl_append, List.foldl_cons, List.foldl_nil]
      rw [orderKey_clamp_intersect _ (lastOrdered last (List.mem_singleton_self last))]
      exact last.clamp_congr (inductionHypothesis frontOrdered)

/-- Whether the first two clamps are joined first or the last two, the bounds come out of both
clamps that follow. -/
theorem intersect_assoc (first : ClampRange) (secondOrdered : second.Ordered)
    (thirdOrdered : third.Ordered) :
    ((first.intersect second).intersect third).agrees
      (first.intersect (second.intersect third)) = true := by
  have joined := secondOrdered.intersect thirdOrdered
  apply agrees_iff.mpr
  constructor
  · exact (orderKey_clamp_intersect second thirdOrdered first.min).symm
  · calc ((first.intersect second).intersect third).max.orderKey
        = (third.clamp (first.intersect second).max).orderKey :=
          orderKey_max_intersect _ thirdOrdered
      _ = (third.clamp (second.clamp first.max)).orderKey :=
          third.clamp_congr (orderKey_max_intersect first secondOrdered)
      _ = ((second.intersect third).clamp first.max).orderKey :=
          (orderKey_clamp_intersect second thirdOrdered first.max).symm
      _ = (first.intersect (second.intersect third)).max.orderKey :=
          (orderKey_max_intersect first joined).symm

/-- Clamps compose.  Clamping to any range and then to an ordered one is clamping to their
intersection, which is ordered if both are.  So the ranges of a whole chain of clamps can be
intersected one after the other, whatever the first of them is, and how they are grouped does
not matter. -/
theorem clamps_compose :
    (∀ (first second : ClampRange) (value : Binary32), second.Ordered →
      (second.clamp (first.clamp value)).agrees ((first.intersect second).clamp value) = true) ∧
    (∀ first second : ClampRange, first.Ordered → second.Ordered →
      (first.intersect second).Ordered) ∧
    (∀ (start : ClampRange) (chain : List ClampRange) (value : Binary32),
      (∀ range ∈ chain, range.Ordered) →
      ((chain.foldl ClampRange.intersect start).clamp value).agrees
        (chain.foldl (fun result range => range.clamp result) (start.clamp value)) = true) ∧
    (∀ first second third : ClampRange, second.Ordered → third.Ordered →
      ((first.intersect second).intersect third).agrees
        (first.intersect (second.intersect third)) = true) := by
  refine ⟨?_, ?_, ?_, ?_⟩
  · intro first second value ordered
    exact Binary32.agrees_iff.mpr (orderKey_clamp_intersect first ordered value).symm
  · intro first second firstOrdered secondOrdered
    exact firstOrdered.intersect secondOrdered
  · intro start chain value ordered
    exact Binary32.agrees_iff.mpr (orderKey_clamp_foldl_intersect ordered start value)
  · intro first second third secondOrdered thirdOrdered
    exact intersect_assoc first secondOrdered thirdOrdered

/-- The numbers from one to two, those from four to eight, and those from four on together with
the NaNs. -/
theorem clamps_compose_apart :
    let low : ClampRange := ⟨.ofMagnitude false 0x3f800000, .ofMagnitude false 0x40000000⟩
    let high : ClampRange := ⟨.ofMagnitude false 0x40800000, .ofMagnitude false 0x41000000⟩
    let upward : ClampRange := ⟨.ofMagnitude false 0x40800000, .nan⟩
    (low.Ordered ∧ high.Ordered ∧ upward.Ordered) ∧
      (high.clamp (low.clamp .zero)).agrees ((low.intersect high).clamp .zero) = true ∧
      (low.intersect high).Ordered ∧
      (([low, upward, low].foldl ClampRange.intersect high).clamp .nan).agrees
        ([low, upward, low].foldl (fun result range => range.clamp result)
          (high.clamp .nan)) = true ∧
      ((low.intersect high).intersect upward).agrees
        (low.intersect (high.intersect upward)) = true := by
  intro low high upward
  have lowOrdered : low.Ordered := by decide
  have highOrdered : high.Ordered := by decide
  have upwardOrdered : upward.Ordered := by decide
  have chainOrdered : ∀ range ∈ [low, upward, low], range.Ordered := by
    simp only [List.forall_mem_cons, List.not_mem_nil, false_implies, implies_true, and_true]
    exact ⟨lowOrdered, upwardOrdered, lowOrdered⟩
  exact ⟨⟨lowOrdered, highOrdered, upwardOrdered⟩,
    clamps_compose.1 low high .zero highOrdered,
    clamps_compose.2.1 low high lowOrdered highOrdered,
    clamps_compose.2.2.1 high [low, upward, low] .nan chainOrdered,
    clamps_compose.2.2.2 low high upward highOrdered upwardOrdered⟩

end ClampRange
end TensorCompiler
