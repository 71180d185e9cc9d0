namespace TensorCompiler

/-!
# Sets of positions

A search through a graph has to remember where it has been.  A set of
positions holds one flag for each position below a bound, so that asking for a
position and adding it take the same time in a large graph as in a small one.
The bound is the size of the graph.  A position beyond it holds no node, and
the few of those that a search may come to are kept in a list.
-/

/-- A set of positions. -/
structure NodeSet where
  /-- One flag for each position below the bound. -/
  flags : Array Bool
  /-- The positions in the set that are not below the bound. -/
  others : List Nat := []
  beyond : ∀ id ∈ others, flags.size ≤ id := by simp
  deriving DecidableEq, Repr

namespace NodeSet

/-- The set without any position, with the given bound. -/
def empty (bound : Nat) : NodeSet where
  flags := Array.replicate bound false

def contains (set : NodeSet) (id : Nat) : Bool :=
  set.flags.getD id false || set.others.contains id

/-- Add a position. -/
def insert (set : NodeSet) (id : Nat) : NodeSet :=
  if inside : id < set.flags.size then
    { flags := set.flags.setIfInBounds id true
      others := set.others
      beyond := by simpa using set.beyond }
  else
    { flags := set.flags
      others := id :: set.others
      beyond := List.forall_mem_cons.mpr ⟨Nat.le_of_not_lt inside, set.beyond⟩ }

/-- The positions in the set, those below the bound first and in increasing
order. -/
def toList (set : NodeSet) : List Nat :=
  (List.range set.flags.size).filter set.contains ++ set.others

@[simp] theorem contains_empty (bound id : Nat) : (empty bound).contains id = false := by
  simp only [empty, contains, Array.getD_eq_getD_getElem?, Array.getElem?_replicate,
    List.contains_nil, Bool.or_false]
  split <;> rfl

theorem contains_insert (set : NodeSet) (id other : Nat) :
    (set.insert id).contains other = if other = id then true else set.contains other := by
  unfold insert
  split
  · next inside =>
    simp only [contains, Array.getD_eq_getD_getElem?, Array.getElem?_setIfInBounds]
    by_cases same : id = other
    · simp [← same, inside]
    · simp [same, Ne.symm same]
  · by_cases same : other = id
    · simp [contains, same]
    · simp [contains, same]

end NodeSet

end TensorCompiler
