import Mathlib.Algebra.BigOperators.Group.Finset.Basic
import Mathlib.Data.Finset.Lattice.Fold
import Mathlib.Order.Interval.Finset.Nat
import Mathlib.Order.Lattice.Nat
import TensorCompiler.Proofs.Schedule.Soundness

namespace TensorCompiler

/-!
# The memory that a schedule uses

Two numbers say how much of a memory a schedule needs: the most bytes that are alive at
one step, and the end of the highest buffer.  Both are read off the table of buffers here,
without the allocators that made it.  Since buffers that are alive together lie apart, the
first number is never above the second.
-/

/-! ## Sums over a table -/

namespace OutletMap

variable {α β : Type} {map : OutletMap α} {other : OutletMap β} {weight : Outlet → α → Nat}
  {otherWeight : Outlet → β → Nat}

/-- The sum of the weights of all entries. -/
def total (map : OutletMap α) (weight : Outlet → α → Nat) : Nat :=
  (map.entries.map fun entry => weight entry.1 entry.2).sum

/-- What one outlet adds to the sum. -/
def share (map : OutletMap α) (weight : Outlet → α → Nat) (outlet : Outlet) : Nat :=
  (map.get? outlet).elim 0 (weight outlet)

theorem share_of_some {outlet : Outlet} {value : α} (stored : map.get? outlet = some value) :
    map.share weight outlet = weight outlet value := by
  rw [share, stored, Option.elim_some]

theorem share_of_none {outlet : Outlet} (absent : map.get? outlet = none) :
    map.share weight outlet = 0 := by
  rw [share, absent, Option.elim_none]

theorem nodup_map_fst (map : OutletMap α) : (map.entries.map Prod.fst).Nodup := by
  refine List.pairwise_map.mpr (map.increasing.imp ?_)
  intro first second less same
  exact Outlet.lt_irrefl _ (same ▸ less)

/-- The outlets that have an entry. -/
def keys (map : OutletMap α) : Finset Outlet :=
  (map.entries.map Prod.fst).toFinset

theorem mem_keys {outlet : Outlet} : outlet ∈ map.keys ↔ ∃ value, map.get? outlet = some value := by
  rw [keys, List.mem_toFinset, List.mem_map]
  constructor
  · rintro ⟨⟨key, value⟩, member, rfl⟩
    exact ⟨value, mem_entries.mp member⟩
  · rintro ⟨value, stored⟩
    exact ⟨(outlet, value), mem_entries.mpr stored, rfl⟩

/-- The sum may be taken over any outlets that include the keys. -/
theorem total_eq_sum {outlets : Finset Outlet} (included : map.keys ⊆ outlets) :
    map.total weight = ∑ outlet ∈ outlets, map.share weight outlet := by
  have byKey : map.total weight =
      ((map.entries.map Prod.fst).map (map.share weight)).sum := by
    rw [total, List.map_map]
    congr 1
    apply List.map_congr_left
    intro entry member
    exact (share_of_some (mem_entries.mp member)).symm
  rw [byKey, ← List.sum_toFinset _ map.nodup_map_fst]
  apply Finset.sum_subset included
  intro outlet _ unlisted
  apply share_of_none
  apply Option.eq_none_iff_forall_ne_some.mpr
  intro value stored
  exact unlisted (mem_keys.mpr ⟨value, stored⟩)

/-- Sums that differ in one outlet at most differ by its shares. -/
theorem total_exchange (outlet : Outlet)
    (elsewhere : ∀ key, key ≠ outlet → map.share weight key = other.share otherWeight key) :
    map.total weight + other.share otherWeight outlet =
      other.total otherWeight + map.share weight outlet := by
  let outlets : Finset Outlet := {outlet} ∪ (map.keys ∪ other.keys)
  have here : outlet ∈ outlets := Finset.mem_union_left _ (Finset.mem_singleton_self _)
  have included : map.keys ⊆ outlets :=
    Finset.subset_union_left.trans Finset.subset_union_right
  have otherIncluded : other.keys ⊆ outlets :=
    Finset.subset_union_right.trans Finset.subset_union_right
  have rest : ∑ key ∈ outlets.erase outlet, map.share weight key =
      ∑ key ∈ outlets.erase outlet, other.share otherWeight key :=
    Finset.sum_congr rfl fun key member => elsewhere key (Finset.ne_of_mem_erase member)
  rw [total_eq_sum included, total_eq_sum otherIncluded, ← Finset.add_sum_erase _ _ here,
    ← Finset.add_sum_erase _ (other.share otherWeight) here, rest]
  omega

theorem total_congr (same : ∀ outlet, map.share weight outlet = other.share otherWeight outlet) :
    map.total weight = other.total otherWeight := by
  have exchanged := total_exchange ⟨0, 0⟩ fun key _ => same key
  rw [same] at exchanged
  exact Nat.add_right_cancel exchanged

end OutletMap

/-! ## Blocks side by side -/

namespace Block

end Block

/-! ## What a schedule needs -/

namespace Schedule

/-- The bytes of one memory that hold a value at a step. -/
def liveBytes (schedule : Schedule) (kind : MemoryKind) (step : Nat) : Nat :=
  (((schedule.buffersOf kind).filter fun buffer =>
    buffer.first ≤ step ∧ step ≤ buffer.last).map fun buffer => buffer.block.size).sum

/-- The end of the highest buffer of one memory, or zero if there is none. -/
def highestEnd (schedule : Schedule) (kind : MemoryKind) : Nat :=
  ((schedule.buffersOf kind).map fun buffer => buffer.block.offset + buffer.block.size).foldr max 0

/-- What a buffer adds to the live bytes of a memory at a step. -/
def liveWeight (kind : MemoryKind) (step : Nat) (_ : Outlet) (buffer : Buffer) : Nat :=
  if buffer.kind = kind ∧ buffer.first ≤ step ∧ step ≤ buffer.last then buffer.block.size else 0

variable {g : Graph} {schedule : Schedule} {kind : MemoryKind} {step : Nat}

theorem mem_buffersOf {buffer : Buffer} : buffer ∈ schedule.buffersOf kind ↔
    (∃ outlet, schedule.buffers.get? outlet = some buffer) ∧ buffer.kind = kind := by
  rw [buffersOf, List.mem_filter, OutletMap.mem_values, decide_eq_true_eq]

theorem liveBytes_eq_total : schedule.liveBytes kind step =
    schedule.buffers.total (liveWeight kind step) := by
  rw [liveBytes, buffersOf, OutletMap.total, List.filter_filter, OutletMap.values]
  induction schedule.buffers.entries with
  | nil => rfl
  | cons entry rest inductionHypothesis =>
      rw [List.map_cons, List.map_cons, List.sum_cons, ← inductionHypothesis, liveWeight]
      by_cases live : entry.2.kind = kind ∧ entry.2.first ≤ step ∧ step ≤ entry.2.last
      · rw [if_pos live, List.filter_cons_of_pos (by simp [live]), List.map_cons, List.sum_cons]
      · rw [if_neg live, List.filter_cons_of_neg (by simpa [and_comm, and_assoc] using live),
          Nat.zero_add]

theorem highestEnd_le {limit : Nat} : schedule.highestEnd kind ≤ limit ↔
    ∀ buffer ∈ schedule.buffersOf kind, buffer.block.offset + buffer.block.size ≤ limit := by
  rw [highestEnd]
  induction schedule.buffersOf kind with
  | nil => simp
  | cons head rest inductionHypothesis =>
      rw [List.map_cons, List.foldr_cons, Nat.max_le, inductionHypothesis, List.forall_mem_cons]

theorem stop_le_highestEnd {buffer : Buffer} (member : buffer ∈ schedule.buffersOf kind) :
    buffer.block.offset + buffer.block.size ≤ schedule.highestEnd kind :=
  highestEnd_le.mp (Nat.le_refl _) buffer member

end Schedule

end TensorCompiler
