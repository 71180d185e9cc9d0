import TensorCompiler.Graph.Basic
import TensorCompiler.Memory.FreeSpace

namespace TensorCompiler

/-!
# Buffers

A buffer is the place of one value: a block of a memory, for the steps of the
program from the one that makes the value to the last one that reads it.
-/

/-- The place and lifetime of the value at an outlet. -/
structure Buffer where
  outlet : Outlet
  kind : MemoryKind
  block : Block
  /-- The step that makes the value. -/
  first : Nat
  /-- The last step at which the value is needed. -/
  last : Nat
  /-- A pinned buffer is never given to another value. -/
  pinned : Bool := false
  deriving DecidableEq, Repr

namespace Buffer

/-- Whether two buffers are needed at the same step. -/
def lifetimesMeet (first second : Buffer) : Bool :=
  decide (first.first ≤ second.last ∧ second.first ≤ first.last)

/-- Whether two buffers would corrupt each other: they share a byte of the
same memory at the same step. -/
def conflicts (first second : Buffer) : Checked Bool :=
  if first.kind = second.kind ∧ first.lifetimesMeet second then
    first.block.overlaps second.block
  else return false

end Buffer

/-! ## Tables by outlet -/

/-- A finite map from outlets, with its entries in increasing order. -/
structure OutletMap (α : Type) where
  entries : List (Outlet × α)
  increasing : entries.Pairwise fun first second => first.1 < second.1

namespace OutletMap

variable {α : Type}

/-- Put an entry into increasing entries, in place of one with the same key. -/
def insertEntry (key : Outlet) (value : α) : List (Outlet × α) → List (Outlet × α)
  | [] => [(key, value)]
  | entry :: rest =>
    if key < entry.1 then (key, value) :: entry :: rest
    else if key = entry.1 then (key, value) :: rest
    else entry :: insertEntry key value rest

theorem key_of_mem_insertEntry {key : Outlet} {value : α} {entries : List (Outlet × α)}
    {entry : Outlet × α} (member : entry ∈ insertEntry key value entries) :
    entry.1 = key ∨ entry ∈ entries := by
  induction entries with
  | nil => simp_all [insertEntry]
  | cons head rest ih =>
    unfold insertEntry at member
    split at member
    · rcases List.mem_cons.mp member with rfl | old
      · exact .inl rfl
      · exact .inr old
    · split at member
      · rcases List.mem_cons.mp member with rfl | old
        · exact .inl rfl
        · exact .inr (List.mem_cons_of_mem _ old)
      · rcases List.mem_cons.mp member with rfl | old
        · exact .inr List.mem_cons_self
        · exact (ih old).imp_right (List.mem_cons_of_mem _)

theorem increasing_insertEntry (key : Outlet) (value : α) {entries : List (Outlet × α)}
    (increasing : entries.Pairwise fun first second => first.1 < second.1) :
    (insertEntry key value entries).Pairwise fun first second => first.1 < second.1 := by
  induction entries with
  | nil => simp [insertEntry]
  | cons head rest ih =>
    obtain ⟨headLess, restIncreasing⟩ := List.pairwise_cons.mp increasing
    unfold insertEntry
    split
    · next less =>
      refine List.pairwise_cons.mpr ⟨?_, increasing⟩
      intro entry member
      rcases List.mem_cons.mp member with rfl | old
      · exact less
      · exact Outlet.lt_trans less (headLess entry old)
    · next notLess =>
      split
      · next same => exact List.pairwise_cons.mpr ⟨fun entry old => same ▸ headLess entry old,
          restIncreasing⟩
      · next different =>
        refine List.pairwise_cons.mpr ⟨?_, ih restIncreasing⟩
        intro entry member
        rcases key_of_mem_insertEntry member with same | old
        · exact same ▸ Outlet.lt_of_not_lt_of_ne notLess different
        · exact headLess entry old

def empty : OutletMap α :=
  ⟨[], .nil⟩

def get? (map : OutletMap α) (key : Outlet) : Option α :=
  (map.entries.find? fun entry => entry.1 = key).map Prod.snd

def contains (map : OutletMap α) (key : Outlet) : Bool :=
  map.entries.any fun entry => entry.1 = key

/-- Store a value under a key, in place of what was there. -/
def insert (map : OutletMap α) (key : Outlet) (value : α) : OutletMap α :=
  ⟨insertEntry key value map.entries, increasing_insertEntry key value map.increasing⟩

/-- The values, by increasing key. -/
def values (map : OutletMap α) : List α :=
  map.entries.map Prod.snd

/-- The map of some entries; of several with one key the last counts. -/
def ofEntries (entries : List (Outlet × α)) : OutletMap α :=
  entries.foldl (fun map entry => map.insert entry.1 entry.2) empty

end OutletMap

end TensorCompiler
