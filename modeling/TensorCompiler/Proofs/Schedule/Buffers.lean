import TensorCompiler.Proofs.Memory.FreeSpace
import TensorCompiler.Proofs.Words
import TensorCompiler.Schedule.Basic

namespace TensorCompiler

/-!
# Tables of buffers and their bytes

A table by outlet is used through `get?` alone: storing changes the answer for
one key, and the values are the answers for all keys.

Two buffers clash if they share a byte of one memory during a common step.
The executable test computes the ends of the blocks, so it agrees with this
notion for blocks that end within a word, and for those it never aborts.
-/

/-! ## Tables by outlet -/

namespace OutletMap

variable {α : Type}

@[simp] theorem get?_empty (key : Outlet) : (empty : OutletMap α).get? key = none :=
  rfl

private theorem find?_insertEntry (key other : Outlet) (value : α)
    (entries : List (Outlet × α)) :
    (insertEntry key value entries).find? (fun entry => entry.1 = other) =
      if other = key then some (key, value)
      else entries.find? fun entry => entry.1 = other := by
  induction entries with
  | nil => by_cases same : other = key <;> simp [insertEntry, same, eq_comm]
  | cons head rest inductionHypothesis =>
      unfold insertEntry
      split
      · by_cases same : key = other
        · simp [same]
        · simp [same, Ne.symm same]
      · split
        · next present =>
          by_cases same : key = other
          · simp [same]
          · simp [same, Ne.symm same, ← present]
        · next absent =>
          by_cases found : head.1 = other
          · have different : other ≠ key := fun same => absent (same ▸ found.symm)
            simp [found, different]
          · simp [found, inductionHypothesis]

theorem get?_insert (map : OutletMap α) (key other : Outlet) (value : α) :
    (map.insert key value).get? other = if other = key then some value else map.get? other := by
  unfold get? insert
  rw [find?_insertEntry]
  split <;> rfl

theorem get?_insert_self (map : OutletMap α) (key : Outlet) (value : α) :
    (map.insert key value).get? key = some value := by
  rw [get?_insert, if_pos rfl]

theorem get?_insert_of_ne (map : OutletMap α) {key other : Outlet} (value : α)
    (different : other ≠ key) : (map.insert key value).get? other = map.get? other := by
  rw [get?_insert, if_neg different]

/-- After an insertion a table answers with the new value or as it did before. -/
theorem get?_insert_eq_some {map : OutletMap α} {key other : Outlet} {value found : α} :
    (map.insert key value).get? other = some found ↔
      (other = key ∧ found = value) ∨ (other ≠ key ∧ map.get? other = some found) := by
  rw [get?_insert]
  split
  · next same => simp [same, eq_comm]
  · next different => simp [different]

/-- The entries are what the table answers. -/
theorem mem_entries {map : OutletMap α} {key : Outlet} {value : α} :
    (key, value) ∈ map.entries ↔ map.get? key = some value := by
  rcases map with ⟨entries, increasing⟩
  simp only [get?]
  induction entries with
  | nil => simp
  | cons head rest inductionHypothesis =>
      rcases List.pairwise_cons.mp increasing with ⟨headLess, restIncreasing⟩
      rw [List.mem_cons, inductionHypothesis restIncreasing, List.find?_cons]
      by_cases same : head.1 = key
      · have absent : rest.find? (fun entry => entry.1 = key) = none := by
          rw [List.find?_eq_none]
          intro entry member equal
          have less := headLess entry member
          rw [decide_eq_true_eq] at equal
          rw [same, equal] at less
          exact Outlet.lt_irrefl key less
        simp only [same, decide_true, absent, Option.map_none, Option.map_some,
          Option.some.injEq]
        constructor
        · rintro (equal | impossible)
          · exact (congrArg Prod.snd equal).symm
          · cases impossible
        · intro equal
          exact Or.inl (Prod.ext same.symm equal.symm)
      · have different : (key, value) ≠ head := fun equal =>
          same (congrArg Prod.fst equal).symm
        simp only [same, decide_false, different, false_or]

theorem mem_values {map : OutletMap α} {value : α} :
    value ∈ map.values ↔ ∃ key, map.get? key = some value := by
  rw [values, List.mem_map]
  constructor
  · rintro ⟨⟨key, stored⟩, member, rfl⟩
    exact ⟨key, mem_entries.mp member⟩
  · rintro ⟨key, found⟩
    exact ⟨(key, value), mem_entries.mpr found, rfl⟩

end OutletMap

/-! ## Bytes in common -/

namespace Block

/-- A block ends within a word. -/
def Fits (block : Block) : Prop :=
  block.offset + block.size ≤ Word.largest

instance (block : Block) : Decidable block.Fits :=
  inferInstanceAs (Decidable (_ ≤ _))

/-- Two blocks have a byte in common. -/
def Meets (first second : Block) : Prop :=
  ∃ address, first.Covers address ∧ second.Covers address

theorem meets_iff {first second : Block} :
    first.Meets second ↔ first.size ≠ 0 ∧ second.size ≠ 0 ∧
      first.offset < second.offset + second.size ∧
      second.offset < first.offset + first.size := by
  unfold Meets Covers
  constructor
  · rintro ⟨address, inFirst, inSecond⟩
    omega
  · rintro ⟨firstPositive, secondPositive, low, high⟩
    exact ⟨max first.offset second.offset, by omega, by omega⟩

instance (first second : Block) : Decidable (first.Meets second) :=
  decidable_of_iff _ meets_iff.symm

theorem stop_eq_ok {block : Block} (fits : block.Fits) :
    block.stop = .ok (block.offset + block.size) :=
  Word.add_eq_ok.mpr ⟨rfl, fits⟩

/-- On blocks within a word, the executable test decides whether they have a
byte in common. -/
theorem overlaps_eq_ok {first second : Block} (firstFits : first.Fits) (secondFits : second.Fits) :
    first.overlaps second = .ok (decide (first.Meets second)) := by
  unfold overlaps
  rw [stop_eq_ok firstFits, stop_eq_ok secondFits, decide_eq_decide.mpr meets_iff]
  by_cases empty : first.size = 0 ∨ second.size = 0
  · rw [if_pos empty, decide_eq_false (by omega)]
    rfl
  · rw [if_neg empty]
    change (if first.offset < second.offset + second.size then _ else _) = _
    by_cases low : first.offset < second.offset + second.size
    · rw [if_pos low]
      have same : (second.offset < first.offset + first.size) ↔
          first.size ≠ 0 ∧ second.size ≠ 0 ∧ first.offset < second.offset + second.size ∧
            second.offset < first.offset + first.size := by
        omega
      exact congrArg Except.ok (decide_eq_decide.mpr same)
    · rw [if_neg low, decide_eq_false (by omega)]
      rfl

end Block

namespace Buffer

/-- Two buffers share a byte of the same memory during a common step. -/
def Clashes (first second : Buffer) : Prop :=
  first.kind = second.kind ∧ (first.first ≤ second.last ∧ second.first ≤ first.last) ∧
    first.block.Meets second.block

instance (first second : Buffer) : Decidable (first.Clashes second) :=
  inferInstanceAs (Decidable (_ ∧ _))

/-- On blocks within a word, the executable test decides whether two buffers
clash. -/
theorem conflicts_eq_ok {first second : Buffer} (firstFits : first.block.Fits)
    (secondFits : second.block.Fits) :
    first.conflicts second = .ok (decide (first.Clashes second)) := by
  unfold conflicts
  by_cases together : first.kind = second.kind ∧ first.lifetimesMeet second = true
  · rw [if_pos together, Block.overlaps_eq_ok firstFits secondFits]
    have lifetimes := together.2
    rw [lifetimesMeet, decide_eq_true_eq] at lifetimes
    have clash : first.block.Meets second.block ↔ first.Clashes second :=
      ⟨fun meets => ⟨together.1, lifetimes, meets⟩, fun clash => clash.2.2⟩
    exact congrArg Except.ok (decide_eq_decide.mpr clash)
  · rw [if_neg together]
    have quiet : ¬ first.Clashes second := by
      rintro ⟨kinds, lifetimes, _⟩
      exact together ⟨kinds, decide_eq_true lifetimes⟩
    rw [decide_eq_false quiet]
    rfl

end Buffer

end TensorCompiler
