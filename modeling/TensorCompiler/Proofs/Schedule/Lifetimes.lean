import TensorCompiler.Proofs.Schedule.Steps

namespace TensorCompiler
namespace Scheduling

/-!
# Lifetimes

A run of the scheduler keeps a record of what has happened: after some nodes
have run, the table of buffers holds exactly the values they made, each with
the position of its node as its first step and the position of its latest
reader as its last one, or the final step if it is pinned.

Nothing here depends on where the blocks lie, or on whether the two ends of the
links agree.
-/

/-- The node at a position of a sequence reads an outlet. -/
def ReadAt (g : Graph) (sequence : List Nat) (outlet : Outlet) (position : Nat) : Prop :=
  ∃ inlet : Inlet, sequence[position]? = some inlet.node ∧ g.Reads inlet outlet

/-- A step is the last one in a sequence that reads an outlet, or the one that
makes the value if none does. -/
def IsLastUse (g : Graph) (sequence : List Nat) (outlet : Outlet) (first last : Nat) : Prop :=
  (∀ position, ReadAt g sequence outlet position → position ≤ last) ∧
    (ReadAt g sequence outlet last ∨
      (last = first ∧ ∀ position, ¬ ReadAt g sequence outlet position))

/-- A buffer tells the truth about an outlet and the nodes that have run. -/
structure Describes (g : Graph) (scheduled : List Nat) (final : Nat) (sequence : List Nat)
    (outlet : Outlet) (buffer : Buffer) : Prop where
  own : buffer.outlet = outlet
  wire : ∃ wire, g.wire outlet = .ok wire ∧ buffer.kind = wire.memory ∧
    buffer.pinned = isPinned g scheduled wire
  first : sequence[buffer.first]? = some outlet.node
  lastPinned : buffer.pinned = true → buffer.last = final
  lastUnpinned : buffer.pinned = false →
    IsLastUse g sequence outlet buffer.first buffer.last

/-- The tables are an exact record of the nodes that have run. -/
structure Records (g : Graph) (scheduled : List Nat) (final : Nat) (sequence : List Nat)
    (progress : Progress) : Prop where
  keys : ∀ outlet, (∃ buffer, progress.buffers.get? outlet = some buffer) ↔
    outlet.node ∈ sequence ∧ ∃ wire, g.wire outlet = .ok wire
  counted : ∀ outlet, (progress.pending.get? outlet).isSome ↔
    ∃ buffer, progress.buffers.get? outlet = some buffer
  entry : ∀ outlet buffer, progress.buffers.get? outlet = some buffer →
    Describes g scheduled final sequence outlet buffer
  served : ∀ outlet position, ReadAt g sequence outlet position →
    ∃ buffer, progress.buffers.get? outlet = some buffer ∧ buffer.first ≤ position

/-! ## One more node -/

theorem ReadAt.lt_length {g : Graph} {sequence : List Nat} {outlet : Outlet} {position : Nat}
    (read : ReadAt g sequence outlet position) : position < sequence.length := by
  rcases read with ⟨_, found, _⟩
  exact (List.getElem?_eq_some_iff.mp found).1

theorem readAt_concat {g : Graph} {sequence : List Nat} {id : Nat} {node : Node}
    {outlet : Outlet} {position : Nat} (found : g.node? id = some node) :
    ReadAt g (sequence ++ [id]) outlet position ↔
      ReadAt g sequence outlet position ∨
        (position = sequence.length ∧ outlet ∈ node.producers) := by
  constructor
  · rintro ⟨inlet, atPosition, reads⟩
    by_cases old : position < sequence.length
    · rw [List.getElem?_append_left old] at atPosition
      exact Or.inl ⟨inlet, atPosition, reads⟩
    · have atEnd : position = sequence.length := by
        have inside := (List.getElem?_eq_some_iff.mp atPosition).1
        rw [List.length_append, List.length_singleton] at inside
        omega
      subst atEnd
      rw [List.getElem?_concat_length] at atPosition
      rcases Graph.reads_iff.mp reads with ⟨_, again, entry⟩
      rw [← Option.some.inj atPosition, found] at again
      rcases Option.some.inj again with rfl
      exact Or.inr ⟨rfl, Graph.mem_producers.mpr ⟨_, entry⟩⟩
  · rintro (⟨inlet, atPosition, reads⟩ | ⟨rfl, member⟩)
    · have inside := (List.getElem?_eq_some_iff.mp atPosition).1
      exact ⟨inlet, (List.getElem?_append_left inside).trans atPosition, reads⟩
    · rcases Graph.mem_producers.mp member with ⟨index, entry⟩
      exact ⟨⟨id, index⟩, List.getElem?_concat_length,
        Graph.reads_iff.mpr ⟨node, found, entry⟩⟩

theorem extendTo_first (step : Nat) (buffer : Buffer) :
    (extendTo step buffer).first = buffer.first := by
  unfold extendTo
  split <;> rfl

section

variable {g : Graph} {scheduled : List Nat} {final : Nat} {sequence : List Nat}

/-- A buffer of another node keeps its first step. -/
theorem NodeTables.first_kept {step id : Nat} {node : Node} {progress after : Progress}
    {outlet : Outlet} {buffer : Buffer}
    (tables : NodeTables g scheduled final step id node progress after)
    (foreign : outlet ∉ outletsOf id node)
    (present : progress.buffers.get? outlet = some buffer) :
    ∃ kept, after.buffers.get? outlet = some kept ∧ kept.first = buffer.first := by
  rw [tables.kept outlet foreign, present, Option.map_some]
  refine ⟨_, rfl, ?_⟩
  split
  · exact extendTo_first step buffer
  · rfl

/-- A buffer that was read once more tells the truth about the longer run. -/
theorem Describes.read {outlet : Outlet} {buffer : Buffer} {id : Nat} {node : Node}
    (describes : Describes g scheduled final sequence outlet buffer)
    (found : g.node? id = some node) (reads : outlet ∈ node.producers) :
    Describes g scheduled final (sequence ++ [id]) outlet (extendTo sequence.length buffer) := by
  have inside := (List.getElem?_eq_some_iff.mp describes.first).1
  have stillFirst : (sequence ++ [id])[buffer.first]? = some outlet.node :=
    (List.getElem?_append_left inside).trans describes.first
  cases pinned : buffer.pinned with
  | true =>
      have unchanged : extendTo sequence.length buffer = buffer := by simp [extendTo, pinned]
      rw [unchanged]
      refine ⟨describes.own, describes.wire, stillFirst, describes.lastPinned, ?_⟩
      intro unpinned
      rw [pinned] at unpinned
      cases unpinned
  | false =>
      have extended : extendTo sequence.length buffer =
          { buffer with last := sequence.length } := by
        simp [extendTo, pinned]
      rw [extended]
      refine ⟨describes.own, describes.wire, stillFirst, ?_, ?_⟩
      · intro impossible
        rw [pinned] at impossible
        cases impossible
      · intro _
        refine ⟨?_, Or.inl ((readAt_concat found).mpr (Or.inr ⟨rfl, reads⟩))⟩
        intro position read
        have bound := read.lt_length
        rw [List.length_append, List.length_singleton] at bound
        exact Nat.le_of_lt_succ bound

/-- A buffer that was not read tells the truth about the longer run as it is. -/
theorem Describes.skip {outlet : Outlet} {buffer : Buffer} {id : Nat} {node : Node}
    (describes : Describes g scheduled final sequence outlet buffer)
    (found : g.node? id = some node) (unread : outlet ∉ node.producers) :
    Describes g scheduled final (sequence ++ [id]) outlet buffer := by
  have inside := (List.getElem?_eq_some_iff.mp describes.first).1
  have same : ∀ position, ReadAt g (sequence ++ [id]) outlet position ↔
      ReadAt g sequence outlet position := by
    intro position
    rw [readAt_concat found]
    exact or_iff_left fun new => unread new.2
  refine ⟨describes.own, describes.wire,
    (List.getElem?_append_left inside).trans describes.first, describes.lastPinned, ?_⟩
  intro unpinned
  simpa only [IsLastUse, same] using describes.lastUnpinned unpinned

/-- A new buffer tells the truth about the node that has just run. -/
theorem describes_newBuffer {outlet : Outlet} {wire : Wire} {node : Node} (block : Block)
    (found : g.node? outlet.node = some node) (wired : g.wire outlet = .ok wire)
    (unread : ∀ position, ¬ ReadAt g sequence outlet position) :
    Describes g scheduled final (sequence ++ [outlet.node]) outlet
      (newBuffer g scheduled sequence.length final outlet wire block) := by
  refine ⟨rfl, ⟨wire, wired, rfl, rfl⟩, List.getElem?_concat_length, ?_, ?_⟩
  · intro pinned
    change isPinned g scheduled wire = true at pinned
    simp [newBuffer, pinned]
  · intro unpinned
    change isPinned g scheduled wire = false at unpinned
    have last : (newBuffer g scheduled sequence.length final outlet wire block).last =
        sequence.length := by
      simp [newBuffer, unpinned]
    rw [last]
    have onlyNow : ∀ position, ReadAt g (sequence ++ [outlet.node]) outlet position →
        position = sequence.length ∧ outlet ∈ node.producers := by
      intro position read
      exact ((readAt_concat found).mp read).resolve_left (unread position)
    refine ⟨fun position read => Nat.le_of_eq (onlyNow position read).1, ?_⟩
    by_cases readsItself : outlet ∈ node.producers
    · exact Or.inl ((readAt_concat found).mpr (Or.inr ⟨rfl, readsItself⟩))
    · exact Or.inr ⟨rfl, fun position read => readsItself (onlyNow position read).2⟩

/-- Running one more node keeps the record exact. -/
theorem Records.node {progress after : Progress} {id : Nat} {node : Node}
    (records : Records g scheduled final sequence progress) (fresh : id ∉ sequence)
    (found : g.node? id = some node)
    (tables : NodeTables g scheduled final sequence.length id node progress after) :
    Records g scheduled final (sequence ++ [id]) after := by
  have stored : ∀ outlet, (∃ buffer, after.buffers.get? outlet = some buffer) ↔
      outlet ∈ outletsOf id node ∨ ∃ buffer, progress.buffers.get? outlet = some buffer := by
    intro outlet
    by_cases own : outlet ∈ outletsOf id node
    · rcases tables.added outlet own with ⟨wire, block, _, buffer⟩
      simp [own, buffer]
    · rw [tables.kept outlet own]
      cases progress.buffers.get? outlet <;> simp [own]
  refine ⟨?_, ?_, ?_, ?_⟩
  · intro outlet
    rw [stored, records.keys, mem_outletsOf found, List.mem_append, List.mem_singleton]
    constructor
    · rintro (⟨isId, wired⟩ | ⟨old, wired⟩)
      · exact ⟨Or.inr isId, wired⟩
      · exact ⟨Or.inl old, wired⟩
    · rintro ⟨old | isId, wired⟩
      · exact Or.inr ⟨old, wired⟩
      · exact Or.inl ⟨isId, wired⟩
  · intro outlet
    rw [tables.counted, stored, records.counted]
  · intro outlet buffer holds
    by_cases own : outlet ∈ outletsOf id node
    · rcases tables.added outlet own with ⟨wire, block, wired, added⟩
      rcases Option.some.inj (added.symm.trans holds) with rfl
      rcases (mem_outletsOf found).mp own with ⟨rfl, _⟩
      apply describes_newBuffer block found wired
      intro position read
      rcases records.served outlet position read with ⟨old, present, _⟩
      exact fresh ((records.keys outlet).mp ⟨old, present⟩).1
    · rw [tables.kept outlet own] at holds
      rcases Option.map_eq_some_iff.mp holds with ⟨old, present, rfl⟩
      have describes := records.entry outlet old present
      split
      · next reads => exact describes.read found reads
      · next unread => exact describes.skip found unread
  · intro outlet position read
    rcases (readAt_concat found).mp read with before | ⟨rfl, reads⟩
    · rcases records.served outlet position before with ⟨old, present, bound⟩
      have foreign : outlet ∉ outletsOf id node := by
        intro own
        have position := ((records.keys outlet).mp ⟨old, present⟩).1
        exact fresh (((mem_outletsOf found).mp own).1 ▸ position)
      rcases tables.first_kept foreign present with ⟨kept, stillThere, sameFirst⟩
      exact ⟨kept, stillThere, sameFirst ▸ bound⟩
    · by_cases own : outlet ∈ outletsOf id node
      · rcases tables.added outlet own with ⟨wire, block, _, added⟩
        exact ⟨_, added, Nat.le_refl _⟩
      · have earlier := (tables.read outlet reads).resolve_left own
        rcases (records.counted outlet).mp earlier with ⟨old, present⟩
        have bound := (List.getElem?_eq_some_iff.mp (records.entry outlet old present).first).1
        rcases tables.first_kept own present with ⟨kept, stillThere, sameFirst⟩
        exact ⟨kept, stillThere, sameFirst ▸ Nat.le_of_lt bound⟩

theorem Records.absent {progress : Progress} {id : Nat} {outlet : Outlet}
    (records : Records g scheduled final sequence progress) (new : id ∉ sequence)
    (own : outlet.node = id) : progress.buffers.get? outlet = none := by
  apply Option.eq_none_iff_forall_ne_some.mpr
  intro buffer stored
  exact new (own ▸ ((records.keys outlet).mp ⟨buffer, stored⟩).1)

/-- A run records every node it goes through. -/
theorem Records.run {progress after : Progress} {ids : List Nat}
    (records : Records g scheduled final sequence progress)
    (distinct : (sequence ++ ids).Nodup)
    (done : runNodes g scheduled final sequence.length ids progress = .ok () after) :
    Records g scheduled final (sequence ++ ids) after := by
  induction ids generalizing sequence progress with
  | nil =>
      simp only [runNodes, Stateful.pure_eq_ok] at done
      rcases done with ⟨_, rfl⟩
      rw [List.append_nil]
      exact records
  | cons id rest inductionHypothesis =>
      simp only [runNodes, Stateful.bind_eq_ok] at done
      rcases done with ⟨_, between, first, later⟩
      rcases runNode_tables first with ⟨node, found, tables⟩
      have fresh : id ∉ sequence := by
        intro member
        exact (List.nodup_append.mp distinct).2.2 id member id List.mem_cons_self rfl
      have longer := records.node fresh found tables
      have regrouped : sequence ++ id :: rest = (sequence ++ [id]) ++ rest := by
        rw [List.append_assoc, List.singleton_append]
      rw [regrouped] at distinct ⊢
      apply inductionHypothesis longer distinct
      rw [List.length_append, List.length_singleton]
      exact later

theorem records_empty (allocators : Allocators) (journal : Journal) :
    Records g scheduled final [] ⟨allocators, .empty, .empty, journal⟩ := by
  refine ⟨?_, ?_, ?_, ?_⟩
  · intro outlet
    simp
  · intro outlet
    simp
  · intro outlet buffer impossible
    rw [OutletMap.get?_empty] at impossible
    cases impossible
  · rintro outlet position ⟨_, impossible, _⟩
    cases impossible

end

end Scheduling
end TensorCompiler
