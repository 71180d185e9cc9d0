import Mathlib.Data.List.Sort
import TensorCompiler.Proofs.Construction.Sessions

namespace TensorCompiler

/-!
# All or nothing

A typed constructor checks everything before it adds a node, and a node or a link is
added in one step, so what is refused has not changed anything.  What is granted has
changed no more than it had to: there is one node more, at the next position, and the
wires that it reads list its inputs behind the readers they had.

The second part says of every wire which readers it has.  It does not follow the
steps in which the inputs are connected.  In a linked graph the readers of a wire are
known from what the inlets read, so a linked graph is given by its nodes without their
readers, and it is enough to look at these.
-/

/-- The inputs of a node at a position that read an outlet, in order. -/
def Node.inletsFrom (node : Node) (id : Nat) (outlet : Outlet) : List Inlet :=
  ((List.range node.inputs.length).filter
    fun index => node.inputs[index]? == some (some outlet)).map fun index => ⟨id, index⟩

/-- A node whose wires have further readers. -/
def Node.withReaders (node : Node) (readers : Nat → List Inlet) : Node :=
  { node with outputs := node.outputs.mapIdx fun port wire =>
    { wire with readers := wire.readers ++ readers port } }

theorem Node.mem_inletsFrom {node : Node} {id : Nat} {outlet : Outlet} {inlet : Inlet} :
    inlet ∈ node.inletsFrom id outlet ↔
      inlet.node = id ∧ node.inputs[inlet.index]? = some (some outlet) := by
  simp only [inletsFrom, List.mem_map, List.mem_filter, List.mem_range, beq_iff_eq]
  constructor
  · rintro ⟨index, ⟨_, reads⟩, rfl⟩
    exact ⟨rfl, reads⟩
  · rintro ⟨rfl, reads⟩
    exact ⟨inlet.index, ⟨(List.getElem?_eq_some_iff.mp reads).1, reads⟩, rfl⟩

theorem Node.inletsFrom_increasing (node : Node) (id : Nat) (outlet : Outlet) :
    (node.inletsFrom id outlet).Pairwise (· < ·) := by
  refine List.Pairwise.map _ ?_ (List.pairwise_lt_range.filter _)
  intro first second before
  exact Or.inr ⟨rfl, before⟩

theorem Node.unread_withReaders (node : Node) (readers : Nat → List Inlet) :
    (node.withReaders readers).unread = node.unread := by
  simp only [withReaders, unread, Node.mk.injEq, true_and, and_true]
  apply List.ext_getElem?
  intro port
  simp only [List.getElem?_map, List.getElem?_mapIdx, Option.map_map]
  rfl

/-- A node is known by the readers of its wires and what is left without them. -/
theorem Node.eq_of_unread {first second : Node} (same : first.unread = second.unread)
    (readers : ∀ (port : Nat) (wire other : Wire), first.outputs[port]? = some wire →
      second.outputs[port]? = some other → wire.readers = other.readers) : first = second := by
  rcases first with ⟨op, name, inputs, outputs, marks⟩
  rcases second with ⟨otherOp, otherName, otherInputs, otherOutputs, otherMarks⟩
  simp only [unread, Node.mk.injEq] at same readers ⊢
  rcases same with ⟨rfl, rfl, rfl, unlinked, rfl⟩
  refine ⟨rfl, rfl, rfl, List.ext_getElem? fun port => ?_, rfl⟩
  have entry := congrArg (·[port]?) unlinked
  simp only [List.getElem?_map] at entry
  cases here : outputs[port]? with
  | none =>
      rw [here, Option.map_none] at entry
      exact (Option.map_eq_none_iff.mp entry.symm).symm
  | some wire =>
      rw [here, Option.map_some] at entry
      rcases Option.map_eq_some_iff.mp entry.symm with ⟨other, there, alike⟩
      have listed := readers port wire other here there
      rw [there]
      rcases wire with ⟨type, memory, noReuse, _⟩
      rcases other with ⟨otherType, otherMemory, otherNoReuse, _⟩
      simp only [Wire.unlinked, Wire.mk.injEq] at alike listed
      rcases alike with ⟨rfl, rfl, rfl, _⟩
      rw [listed]

namespace Graph

/-- The graph with a further node, at the next position.  The wires that it reads list its
inputs as further readers. -/
def extended (g : Graph) (node : Node) : Graph :=
  let wired := g.slots.mapIdx fun id slot =>
    slot.map fun old => old.withReaders fun port => node.inletsFrom g.slots.size ⟨id, port⟩
  { g with slots := wired }.push node

variable {g h : Graph} {node : Node}

/-! ## Linked graphs are known by what they read -/

theorem eq_of_increasing {first second : List Inlet} (rising : first.Pairwise (· < ·))
    (others : second.Pairwise (· < ·)) (same : ∀ inlet, inlet ∈ first ↔ inlet ∈ second) :
    first = second := by
  have irreflexive : Std.Irrefl fun first second : Inlet => first < second :=
    ⟨Inlet.lt_irrefl⟩
  have antisymmetric : Std.Antisymm fun first second : Inlet => first < second :=
    ⟨fun first _ low high => absurd (Inlet.lt_trans low high) (Inlet.lt_irrefl first)⟩
  exact rising.eq_of_mem_iff others same

/-- The nodes of two graphs agree but for the readers of their wires. -/
def SameUnread (g h : Graph) : Prop :=
  ∀ id, (g.node? id).map Node.unread = (h.node? id).map Node.unread

theorem SameUnread.reads (same : g.SameUnread h) (inlet : Inlet) (outlet : Outlet) :
    g.Reads inlet outlet ↔ h.Reads inlet outlet := by
  simp only [reads_iff]
  constructor
  · rintro ⟨node, found, entry⟩
    rcases exists_node_of_view (same inlet.node).symm found with ⟨other, present, unread⟩
    exact ⟨other, present, (Node.unread_eq_iff.mp unread).2 ▸ entry⟩
  · rintro ⟨node, found, entry⟩
    rcases exists_node_of_view (same inlet.node) found with ⟨other, present, unread⟩
    exact ⟨other, present, (Node.unread_eq_iff.mp unread).2 ▸ entry⟩

/-- Linked graphs that read alike have the same readers on every wire. -/
theorem Linked.readers_eq (linked : g.Linked) (otherLinked : h.Linked)
    (reads : ∀ inlet outlet, g.Reads inlet outlet ↔ h.Reads inlet outlet) {outlet : Outlet}
    {wire other : Wire} (wired : g.wire outlet = .ok wire)
    (otherWired : h.wire outlet = .ok other) : wire.readers = other.readers := by
  apply eq_of_increasing (linked.increasing _ _ wired) (otherLinked.increasing _ _ otherWired)
  intro inlet
  have serves : inlet ∈ wire.readers ↔ g.Serves outlet inlet := by
    constructor
    · exact fun member => ⟨wire, wired, member⟩
    · rintro ⟨again, wiredAgain, member⟩
      exact Except.ok.inj (wired.symm.trans wiredAgain) ▸ member
  have otherServes : inlet ∈ other.readers ↔ h.Serves outlet inlet := by
    constructor
    · exact fun member => ⟨other, otherWired, member⟩
    · rintro ⟨again, wiredAgain, member⟩
      exact Except.ok.inj (otherWired.symm.trans wiredAgain) ▸ member
  rw [serves, otherServes, ← linked.agree, ← otherLinked.agree, reads]

theorem Linked.node?_eq (linked : g.Linked) (otherLinked : h.Linked) (same : g.SameUnread h)
    (id : Nat) : g.node? id = h.node? id := by
  cases found : g.node? id with
  | none =>
      have unread := same id
      rw [found, Option.map_none] at unread
      exact (Option.map_eq_none_iff.mp unread.symm).symm
  | some node =>
      rcases exists_node_of_view (same id).symm found with ⟨other, present, unread⟩
      rw [present]
      refine congrArg some (Node.eq_of_unread unread.symm ?_)
      intro port wire otherWire entry otherEntry
      have wired : g.wire ⟨id, port⟩ = .ok wire := wire_eq_ok.mpr ⟨node, found, entry⟩
      have otherWired : h.wire ⟨id, port⟩ = .ok otherWire :=
        wire_eq_ok.mpr ⟨other, present, otherEntry⟩
      exact linked.readers_eq otherLinked same.reads wired otherWired

/-- A linked graph is known by its nodes without the readers of their wires. -/
theorem Linked.eq_of_unread (linked : g.Linked) (otherLinked : h.Linked)
    (same : g.SameUnread h) (size : g.slots.size = h.slots.size) (outputs : g.outputs = h.outputs)
    (live : g.live = h.live) : g = h := by
  have slots : g.slots = h.slots := by
    apply Array.ext size
    intro id inside otherInside
    have node := linked.node?_eq otherLinked same id
    simpa only [node?, Array.getElem?_eq_getElem inside, Array.getElem?_eq_getElem otherInside,
      Option.join_some] using node
  cases g
  cases h
  simp_all only

/-! ## The extended graph -/

theorem size_extended (g : Graph) (node : Node) :
    (g.extended node).slots.size = g.slots.size + 1 := by
  simp [extended, push]

theorem node?_extended (g : Graph) (node : Node) (id : Nat) :
    (g.extended node).node? id = if id = g.slots.size then some node else
      (g.node? id).map fun old => old.withReaders fun port =>
        node.inletsFrom g.slots.size ⟨id, port⟩ := by
  simp only [extended, node?_push, Array.size_mapIdx]
  congr 1
  simp only [node?, Array.getElem?_mapIdx]
  cases g.slots[id]? with
  | none => rfl
  | some slot => rfl

theorem reads_extended {inlet : Inlet} {outlet : Outlet} :
    (g.extended node).Reads inlet outlet ↔
      g.Reads inlet outlet ∨ inlet ∈ node.inletsFrom g.slots.size outlet := by
  rw [Node.mem_inletsFrom, reads_iff, reads_iff, node?_extended]
  by_cases last : inlet.node = g.slots.size
  · simp [last, node?_size]
  · simp [last, Node.withReaders]

theorem wire_extended_new {outlet : Outlet} {wire : Wire} (new : outlet.node = g.slots.size) :
    (g.extended node).wire outlet = .ok wire ↔ node.outputs[outlet.index]? = some wire := by
  rw [wire_eq_ok, node?_extended, if_pos new]
  simp

theorem wire_extended_old {outlet : Outlet} {wire : Wire} (old : outlet.node ≠ g.slots.size) :
    (g.extended node).wire outlet = .ok wire ↔ ∃ before, g.wire outlet = .ok before ∧
      { before with readers := before.readers ++ node.inletsFrom g.slots.size outlet } = wire := by
  simp only [wire_eq_ok, node?_extended, if_neg old, Option.map_eq_some_iff]
  constructor
  · rintro ⟨_, ⟨producer, found, rfl⟩, entry⟩
    rw [Node.withReaders, List.getElem?_mapIdx] at entry
    rcases Option.map_eq_some_iff.mp entry with ⟨before, there, same⟩
    exact ⟨before, ⟨producer, found, there⟩, same⟩
  · rintro ⟨before, ⟨producer, found, there⟩, same⟩
    refine ⟨_, ⟨producer, found, rfl⟩, ?_⟩
    rw [Node.withReaders, List.getElem?_mapIdx, there]
    exact congrArg some same

/-- Nothing reads the new node, so only the wires that were there before have readers. -/
theorem serves_extended (fresh : ∀ wire ∈ node.outputs, wire.readers = []) {outlet : Outlet}
    {inlet : Inlet} :
    (g.extended node).Serves outlet inlet ↔ ∃ wire, g.wire outlet = .ok wire ∧
      (inlet ∈ wire.readers ∨ inlet ∈ node.inletsFrom g.slots.size outlet) := by
  by_cases last : outlet.node = g.slots.size
  · constructor
    · rintro ⟨wire, wired, member⟩
      rw [fresh wire (List.mem_of_getElem? ((wire_extended_new last).mp wired))] at member
      cases member
    · rintro ⟨wire, wired, _⟩
      rcases wire_eq_ok.mp wired with ⟨_, found, _⟩
      rw [last, node?_size] at found
      cases found
  · constructor
    · rintro ⟨wire, wired, member⟩
      rcases (wire_extended_old last).mp wired with ⟨before, wiredBefore, rfl⟩
      exact ⟨before, wiredBefore, List.mem_append.mp member⟩
    · rintro ⟨before, wiredBefore, member⟩
      exact ⟨_, (wire_extended_old last).mpr ⟨before, wiredBefore, rfl⟩,
        List.mem_append.mpr member⟩

theorem Linked.extended (linked : g.Linked) (fresh : ∀ wire ∈ node.outputs, wire.readers = [])
    (wired : ∀ outlet, some outlet ∈ node.inputs → ∃ wire, g.wire outlet = .ok wire) :
    (g.extended node).Linked where
  agree := by
    intro inlet outlet
    rw [reads_extended, serves_extended fresh]
    constructor
    · rintro (reads | member)
      · rcases (linked.agree inlet outlet).mp reads with ⟨wire, wiredHere, member⟩
        exact ⟨wire, wiredHere, Or.inl member⟩
      · rcases wired outlet (List.mem_of_getElem? (Node.mem_inletsFrom.mp member).2) with
          ⟨wire, wiredHere⟩
        exact ⟨wire, wiredHere, Or.inr member⟩
    · rintro ⟨wire, wiredHere, member | member⟩
      · exact Or.inl ((linked.agree inlet outlet).mpr ⟨wire, wiredHere, member⟩)
      · exact Or.inr member
  increasing := by
    intro outlet wire wiredNow
    by_cases last : outlet.node = g.slots.size
    · rw [fresh wire (List.mem_of_getElem? ((wire_extended_new last).mp wiredNow))]
      exact .nil
    · rcases (wire_extended_old last).mp wiredNow with ⟨before, wiredBefore, rfl⟩
      refine List.pairwise_append.mpr
        ⟨linked.increasing _ _ wiredBefore, node.inletsFrom_increasing _ _, ?_⟩
      -- The readers from before are nodes from before.
      intro reader member inlet new
      have reads := (linked.agree reader outlet).mpr ⟨before, wiredBefore, member⟩
      rcases reads_iff.mp reads with ⟨_, found, _⟩
      left
      rw [(Node.mem_inletsFrom.mp new).1]
      exact lt_size_of_node? found

/-- What has been added to a linked graph is determined by the new node. -/
theorem Appended.eq_extended (appended : g.Appended node h) (linked : g.Linked)
    (fresh : ∀ wire ∈ node.outputs, wire.readers = [])
    (wired : ∀ outlet, some outlet ∈ node.inputs → ∃ wire, g.wire outlet = .ok wire) :
    h = g.extended node := by
  refine (appended.links.linked linked).eq_of_unread (linked.extended fresh wired) ?_
    (appended.size.trans (g.size_extended node).symm) ?_ appended.live
  · intro id
    rw [node?_extended]
    by_cases last : id = g.slots.size
    · rw [if_pos last, last, appended.new]
      rfl
    · rw [if_neg last, Option.map_map]
      by_cases inside : id < g.slots.size
      · rw [appended.old id inside]
        congr 1
        funext old
        exact (old.unread_withReaders _).symm
      · have beyond : g.slots.size + 1 ≤ id := by omega
        rw [node?_of_size_le (appended.size ▸ beyond), node?_of_size_le (Nat.le_of_not_lt inside)]
        rfl
  · rw [appended.outputs]
    simp [Graph.extended, Graph.push]

theorem Adds.exists_extended {op : Operator} {operands : List Outlet}
    (adds : g.Adds op operands h) (linked : g.Linked) :
    ∃ name types results, g.TypesAt operands types ∧ op.HasTypes types results ∧
      h = g.extended (connectedNode op name operands results) := by
  rcases adds with ⟨name, types, results, typed, accepted, appended⟩
  refine ⟨name, types, results, typed, accepted, appended.eq_extended linked ?_ ?_⟩
  · intro wire member
    rcases List.mem_map.mp member with ⟨type, _, rfl⟩
    rfl
  · intro outlet member
    rcases List.mem_map.mp member with ⟨operand, isOperand, same⟩
    rcases Option.some.inj same with rfl
    exact typed.exists_wire isOperand

/-! ## Refusals -/

/-- An edit that fails has changed nothing. -/
def Atomic {α : Type} (g : Graph) (edit : Edit α) : Prop :=
  Stateful.Ends edit g (fun _ _ => True) (· = g)

theorem Atomic.discard {α : Type} {edit : Edit α} (atomic : g.Atomic edit) :
    g.Atomic (Functor.discard edit) :=
  Stateful.ends_map.mpr atomic

theorem atomic_step {α : Type} (change : Graph → Checked (α × Graph)) :
    g.Atomic (Edit.step change) :=
  Edit.ends_step (fun _ _ _ => trivial) rfl

/-- In a linked graph a link that is found at one end can be taken off at both. -/
theorem Linked.atomic_disconnect (linked : g.Linked) (inlet : Inlet) :
    g.Atomic (disconnect inlet) := by
  simp only [Atomic, disconnect, Stateful.ends_bind]
  refine Edit.ends_ask ?_ rfl
  intro source asked
  cases source with
  | none => exact trivial
  | some outlet =>
      rcases linked.exists_wire asked with ⟨wire, wired, member⟩
      simp only [Stateful.ends_bind, Stateful.ends_modify]
      rw [Stateful.ends_of_ok (Edit.ask_eq_ok.mpr ⟨wire_setSource.mpr wired, rfl⟩), if_pos member]
      exact trivial

end Graph

namespace Operation

open TensorCompiler.Graph

variable {g : Graph}

theorem atomic_edit (linked : g.Linked) (acyclic : g.Acyclic) (operation : Operation)
    (other : ∀ old new, operation ≠ .replaceUses old new) : g.Atomic operation.edit := by
  cases asks : operation.application? with
  | some node =>
      exact (ends_application ⟨linked.faithful, acyclic⟩ asks).imp (fun _ _ _ => trivial)
        fun _ same => same
  | none =>
      cases operation with
      | addNode op name types => exact (atomic_step _).discard
      | connect inlet outlet => exact atomic_step _
      | disconnect inlet => exact (linked.atomic_disconnect inlet).discard
      | replaceUses old new => exact absurd rfl (other old new)
      | removeUnreachable => exact trivial
      | setName id name => exact atomic_step _
      | updateMarks id change => exact atomic_step _
      | setMemoryKind outlet kind => exact atomic_step _
      | setNoReuse outlet noReuse => exact atomic_step _
      | _ => cases asks

/-- All or nothing.  In a graph without cycles whose links agree at both ends, any request
but one to replace uses is sent, whatever handles it names.  If it fails, the graph is
unchanged.  If it asks a typed constructor for an operator on some operands and
succeeds, there is one node more, at the next position, whose inputs read the operands in
order and whose operator takes operands of their types; the wires that it reads have its
inputs as further readers, and nothing else has changed. -/
theorem all_or_nothing (linked : g.Linked) (acyclic : g.Acyclic) (operation : Operation) :
    ((∀ old new, operation ≠ .replaceUses old new) →
      ∀ failure h, operation.edit g = .error failure h → h = g) ∧
    ∀ op operands h, operation.application? = some (op, operands) →
      operation.edit g = .ok () h →
      ∃ name types results, g.TypesAt operands types ∧ op.HasTypes types results ∧
        h = g.extended (connectedNode op name operands results) := by
  constructor
  · intro other failure h failed
    exact (atomic_edit linked acyclic operation other).of_error failed
  · intro op operands h asks done
    exact ((ends_application ⟨linked.faithful, acyclic⟩ asks).of_ok done).exists_extended linked

/-- A value is added to itself, so its wire gets two readers at once.  Adding it to something
that is not there changes nothing. -/
theorem all_or_nothing_rectified :
    let g := Graph.rectified
    (∃ h, (binary .add ⟨3, 0⟩ ⟨3, 0⟩).edit g = .ok () h ∧
      h.readers ⟨3, 0⟩ = .ok [⟨4, 0⟩, ⟨5, 0⟩, ⟨5, 1⟩]) ∧
    ∃ failure, (binary .add ⟨3, 0⟩ ⟨7, 1⟩).edit g = .error failure g := by
  intro g
  have valid : g.Valid := made_rectified.valid
  have atomic := all_or_nothing valid.linked valid.acyclic
  constructor
  · have done : (binary .add ⟨3, 0⟩ ⟨3, 0⟩).edit g =
        .ok () (Stateful.final (binary .add ⟨3, 0⟩ ⟨3, 0⟩).edit g) := by
      apply Stateful.value?_eq_some.mp
      decide +kernel
    have size : g.slots.size = 5 := by decide +kernel
    have wired : g.wire ⟨3, 0⟩ = .ok ⟨⟨.f32, [2, 3]⟩, .main, false, [⟨4, 0⟩]⟩ := by decide +kernel
    rcases (atomic (binary .add ⟨3, 0⟩ ⟨3, 0⟩)).2 _ _ _ rfl done with
      ⟨name, types, results, _, _, same⟩
    refine ⟨_, done, ?_⟩
    have old : (⟨3, 0⟩ : Outlet).node ≠ g.slots.size := by rw [size]; decide
    rw [same, readers, (wire_extended_old old).mpr ⟨_, wired, rfl⟩, size]
    rfl
  · have failed : (binary .add ⟨3, 0⟩ ⟨7, 1⟩).edit g =
        .error (.refused .badNode) (Stateful.final (binary .add ⟨3, 0⟩ ⟨7, 1⟩).edit g) := by
      apply Stateful.failure?_eq_some.mp
      decide +kernel
    have unchanged := (atomic (binary .add ⟨3, 0⟩ ⟨7, 1⟩)).1 (by simp) _ _ failed
    exact ⟨_, unchanged ▸ failed⟩

end Operation
end TensorCompiler
