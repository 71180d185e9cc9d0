import Mathlib.Data.List.Perm.Subperm
import TensorCompiler.Proofs.Graph.Precedence
import TensorCompiler.Proofs.Schedule.Steps

namespace TensorCompiler

/-!
# Readers in a schedule

How often a value will be read can be told in two ways: by the readers that its wire lists,
and by how often its outlet stands among the operands of the nodes that run.  If both ends of
every link agree, these are the same number, also for a node that reads a value twice.  If the
nodes are arranged so that each comes after those it reads, none of these reads has taken place
when the value is made.
-/

namespace Graph

open Scheduling

variable {g : Graph} {outlet : Outlet} {id : Nat}

/-- The outlets that a node reads, in input order. -/
def operands (g : Graph) (id : Nat) : List Outlet :=
  (g.node? id).elim [] Node.producers

/-- The inlets of a node that read an outlet. -/
def inletsOn (g : Graph) (outlet : Outlet) (id : Nat) : List Inlet :=
  ((g.node? id).elim [] fun node => node.inputs.idxsOf (some outlet)).map (Inlet.mk id)

theorem operands_of_node? {node : Node} (found : g.node? id = some node) :
    g.operands id = node.producers := by
  rw [operands, found, Option.elim_some]

theorem mem_operands : outlet ∈ g.operands id ↔ ∃ index, g.Reads ⟨id, index⟩ outlet := by
  cases found : g.node? id with
  | none => simp [operands, reads_iff, found]
  | some node => simp [operands_of_node? found, mem_producers, reads_iff, found]

theorem mem_flatMap_operands {ids : List Nat} : outlet ∈ ids.flatMap g.operands ↔
    ∃ inlet : Inlet, inlet.node ∈ ids ∧ g.Reads inlet outlet := by
  simp only [List.mem_flatMap, mem_operands]
  constructor
  · rintro ⟨id, member, index, reads⟩
    exact ⟨⟨id, index⟩, member, reads⟩
  · rintro ⟨⟨id, index⟩, member, reads⟩
    exact ⟨id, member, index, reads⟩

theorem needs_of_mem_operands (member : outlet ∈ g.operands id) : g.Needs id outlet.node := by
  rcases mem_operands.mp member with ⟨index, reads⟩
  exact reads.needs

theorem mem_inletsOn {inlet : Inlet} :
    inlet ∈ g.inletsOn outlet id ↔ inlet.node = id ∧ g.Reads inlet outlet := by
  rw [inletsOn, List.mem_map, reads_iff]
  constructor
  · rintro ⟨index, member, rfl⟩
    cases found : g.node? id with
    | none =>
        rw [found] at member
        cases member
    | some node =>
        rw [found, Option.elim_some] at member
        rcases List.mem_idxsOf_iff_exists_getElem_pos.mp member with ⟨inside, same⟩
        exact ⟨rfl, node, rfl, List.getElem?_eq_some_iff.mpr ⟨inside, beq_iff_eq.mp same⟩⟩
  · rintro ⟨rfl, node, found, entry⟩
    rcases List.getElem?_eq_some_iff.mp entry with ⟨inside, same⟩
    refine ⟨inlet.index, ?_, rfl⟩
    rw [found, Option.elim_some]
    exact List.mem_idxsOf_iff_exists_getElem_pos.mpr ⟨inside, beq_iff_eq.mpr same⟩

theorem nodup_inletsOn : (g.inletsOn outlet id).Nodup := by
  apply List.Nodup.map (fun _ _ same => (Inlet.mk.inj same).2)
  cases g.node? id with
  | none => exact List.nodup_nil
  | some node => exact List.nodup_idxsOf

theorem length_inletsOn : (g.inletsOn outlet id).length = (g.operands id).count outlet := by
  rw [inletsOn, List.length_map, operands]
  cases g.node? id with
  | none => rfl
  | some node =>
      rw [Option.elim_some, Option.elim_some, List.length_idxsOf, Node.producers,
        List.count_filterMap]
      rw [List.count]
      congr 1

theorem length_flatMap_inletsOn (ids : List Nat) :
    (ids.flatMap (g.inletsOn outlet)).length = (ids.flatMap g.operands).count outlet := by
  rw [List.length_flatMap, List.count_flatMap]
  congr 1
  apply List.map_congr_left
  intro id _
  exact length_inletsOn

/-- Some nodes of a graph, each once and after those that it reads. -/
structure Arranged (g : Graph) (ids : List Nat) : Prop where
  distinct : ids.Nodup
  present : ∀ id ∈ ids, g.contains id = true
  ordered : ∀ before id after, ids = before ++ id :: after →
    ∀ source, g.Needs id source → source ∈ before

theorem arranged_postorder (faithful : g.Faithful) (acyclic : g.Acyclic) :
    g.Arranged g.postorder where
  distinct := g.postorder_nodup
  present _ := contains_of_mem_postorder
  ordered _ _ _ order _ := mem_before_of_postorder faithful acyclic order

/-- Whatever the nodes of a first part read is in that part. -/
theorem Arranged.mem_left {ids left right : List Nat} {source : Nat} (arranged : g.Arranged ids)
    (parts : ids = left ++ right) (member : id ∈ left) (needs : g.Needs id source) :
    source ∈ left := by
  rcases List.append_of_mem member with ⟨before, after, rfl⟩
  rw [List.append_assoc, List.cons_append] at parts
  exact List.mem_append_left _ (arranged.ordered before id _ parts source needs)

theorem Arranged.not_mem_left {ids before after : List Nat} (arranged : g.Arranged ids)
    (parts : ids = before ++ id :: after) : id ∉ before := by
  have distinct := arranged.distinct
  rw [parts] at distinct
  exact fun earlier => List.disjoint_of_nodup_append distinct earlier List.mem_cons_self

theorem Faithful.nodup_scheduledReaders {scheduled : List Nat} {wire : Wire}
    (faithful : g.Faithful) (wired : g.wire outlet = .ok wire) :
    (scheduledReaders scheduled wire).Nodup := by
  refine List.Nodup.filter _ ((faithful.increasing outlet wire wired).imp ?_)
  rintro first second less rfl
  rcases less with lower | ⟨-, lower⟩
  · exact Nat.lt_irrefl _ lower
  · exact Nat.lt_irrefl _ lower

/-- A wire has at most as many readers in a schedule as its outlet stands among the operands
of the scheduled nodes, since its readers do read it. -/
theorem Faithful.length_scheduledReaders_le {scheduled : List Nat} {wire : Wire}
    (faithful : g.Faithful) (wired : g.wire outlet = .ok wire) :
    (scheduledReaders scheduled wire).length ≤ (scheduled.flatMap g.operands).count outlet := by
  rw [← length_flatMap_inletsOn]
  refine (List.subperm_of_subset (faithful.nodup_scheduledReaders wired) ?_).length_le
  intro inlet member
  rcases List.mem_filter.mp member with ⟨listed, inSchedule⟩
  have reads := faithful.readers outlet inlet ⟨wire, wired, listed⟩
  exact List.mem_flatMap.mpr ⟨inlet.node, List.contains_iff_mem.mp inSchedule,
    mem_inletsOn.mpr ⟨rfl, reads⟩⟩

/-- A wire has as many readers in a schedule as its outlet stands among the operands of
the scheduled nodes. -/
theorem Linked.length_scheduledReaders {scheduled : List Nat} {wire : Wire} (linked : g.Linked)
    (distinct : scheduled.Nodup) (wired : g.wire outlet = .ok wire) :
    (scheduledReaders scheduled wire).length = (scheduled.flatMap g.operands).count outlet := by
  have readersDistinct : (scheduledReaders scheduled wire).Nodup :=
    linked.faithful.nodup_scheduledReaders wired
  have inletsDistinct : (scheduled.flatMap (g.inletsOn outlet)).Nodup := by
    refine List.nodup_flatMap.mpr ⟨fun _ _ => nodup_inletsOn, ?_⟩
    refine distinct.imp ?_
    intro first second different inlet inFirst inSecond
    exact different ((mem_inletsOn.mp inFirst).1.symm.trans (mem_inletsOn.mp inSecond).1)
  have sameReaders : (scheduledReaders scheduled wire).Perm
      (scheduled.flatMap (g.inletsOn outlet)) := by
    apply (List.perm_ext_iff_of_nodup readersDistinct inletsDistinct).mpr
    intro inlet
    have served : inlet ∈ wire.readers ↔ g.Reads inlet outlet := by
      rw [linked.agree]
      constructor
      · exact fun listed => ⟨wire, wired, listed⟩
      · rintro ⟨other, otherWired, listed⟩
        rcases Except.ok.inj (wired.symm.trans otherWired) with rfl
        exact listed
    simp only [scheduledReaders, List.mem_filter, List.contains_iff_mem, List.mem_flatMap,
      mem_inletsOn, served]
    constructor
    · rintro ⟨reads, member⟩
      exact ⟨inlet.node, member, rfl, reads⟩
    · rintro ⟨id, member, rfl, reads⟩
      exact ⟨reads, member⟩
  rw [sameReaders.length_eq, length_flatMap_inletsOn]

/-- The results of a node in a schedule are read by this node and those after it only. -/
theorem Arranged.count_operands {ids before after : List Nat} (arranged : g.Arranged ids)
    (parts : ids = before ++ id :: after) (own : outlet.node = id) :
    (ids.flatMap g.operands).count outlet = ((id :: after).flatMap g.operands).count outlet := by
  have fresh : id ∉ before := arranged.not_mem_left parts
  have unread : (before.flatMap g.operands).count outlet = 0 := by
    apply List.count_eq_zero.mpr
    intro member
    rcases List.mem_flatMap.mp member with ⟨other, earlier, reads⟩
    exact fresh (own ▸ arranged.mem_left parts earlier (needs_of_mem_operands reads))
  rw [parts, List.flatMap_append, List.count_append, unread, Nat.zero_add]

theorem Arranged.length_scheduledReaders {ids before after : List Nat} {wire : Wire}
    (arranged : g.Arranged ids) (parts : ids = before ++ id :: after) (linked : g.Linked)
    (own : outlet.node = id) (wired : g.wire outlet = .ok wire) :
    (scheduledReaders ids wire).length = ((id :: after).flatMap g.operands).count outlet := by
  rw [linked.length_scheduledReaders arranged.distinct wired, arranged.count_operands parts own]

end Graph

end TensorCompiler
