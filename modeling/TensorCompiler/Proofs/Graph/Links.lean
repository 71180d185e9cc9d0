import Mathlib.Logic.Relation
import Mathlib.Tactic.Common
import TensorCompiler.Graph.Reach
import TensorCompiler.Proofs.Outcome

namespace TensorCompiler
namespace Graph

/-!
# Links and dependencies

A link is stored at both of its ends.  The inlet's end is what `producer`
answers; the outlet's end is the list of readers on the wire.  A graph is
linked if the two ends tell the same story about every inlet and every outlet,
and it is acyclic if no node needs itself through a chain of links.

An edit that fails halfway can leave inlets behind that read an outlet which no
longer lists them.  Such an inlet is an orphan.  The other direction never breaks:
an inlet that is listed does read, and what is read exists.  Graphs of which that
much is true are faithful, and a graph is linked exactly if it is faithful and has
no orphans.

Everything later that speaks of paths uses the relation `Needs` between
positions.  It is read off the inlets' ends alone, so it makes sense whether or
not the two ends agree.
-/

/-! ## Looking things up -/

theorem node_eq_ok {g : Graph} {id : Nat} {node : Node} :
    g.node id = .ok node ↔ g.node? id = some node := by
  unfold Graph.node
  cases g.node? id with
  | none => simp
  | some found => simp

theorem node?_of_size_le {g : Graph} {id : Nat} (outside : g.slots.size ≤ id) :
    g.node? id = none := by
  rw [Graph.node?, Array.getElem?_eq_none outside]
  rfl

theorem lt_size_of_node? {g : Graph} {id : Nat} {node : Node} (found : g.node? id = some node) :
    id < g.slots.size := by
  by_contra outside
  rw [node?_of_size_le (Nat.le_of_not_lt outside)] at found
  cases found

theorem contains_iff {g : Graph} {id : Nat} :
    g.contains id = true ↔ ∃ node, g.node? id = some node := by
  rw [Graph.contains, Option.isSome_iff_exists]

theorem wire_eq_ok {g : Graph} {outlet : Outlet} {wire : Wire} :
    g.wire outlet = .ok wire ↔
      ∃ node, g.node? outlet.node = some node ∧ node.outputs[outlet.index]? = some wire := by
  simp only [Graph.wire, Checked.bind_eq_ok, node_eq_ok]
  constructor
  · rintro ⟨node, found, answer⟩
    refine ⟨node, found, ?_⟩
    cases entry : node.outputs[outlet.index]? with
    | none => simp [entry] at answer
    | some other => simpa [entry] using answer
  · rintro ⟨node, found, entry⟩
    exact ⟨node, found, by simp [entry]⟩

theorem outputType_eq_ok {g : Graph} {outlet : Outlet} {type : TensorType} :
    g.outputType outlet = .ok type ↔ ∃ wire, g.wire outlet = .ok wire ∧ wire.type = type := by
  simp only [outputType, Checked.bind_eq_ok, Checked.pure_eq_ok]

/-! ## Links -/

/-- The inlet's end of a link: the inlet is connected to the outlet. -/
def Reads (g : Graph) (inlet : Inlet) (outlet : Outlet) : Prop :=
  g.producer inlet = .ok (some outlet)

/-- The outlet's end of a link: the wire lists the inlet as a reader. -/
def Serves (g : Graph) (outlet : Outlet) (inlet : Inlet) : Prop :=
  ∃ wire, g.wire outlet = .ok wire ∧ inlet ∈ wire.readers

/-- Both ends of every link agree, and the readers of a wire form a set. -/
structure Linked (g : Graph) : Prop where
  agree : ∀ inlet outlet, g.Reads inlet outlet ↔ g.Serves outlet inlet
  increasing : ∀ outlet wire, g.wire outlet = .ok wire → wire.readers.Pairwise (· < ·)

theorem reads_iff {g : Graph} {inlet : Inlet} {outlet : Outlet} :
    g.Reads inlet outlet ↔
      ∃ node, g.node? inlet.node = some node ∧ node.inputs[inlet.index]? = some (some outlet) := by
  simp only [Reads, Graph.producer, Checked.bind_eq_ok, node_eq_ok]
  constructor
  · rintro ⟨node, found, answer⟩
    refine ⟨node, found, ?_⟩
    unfold Node.source at answer
    cases entry : node.inputs[inlet.index]? with
    | none => simp [entry] at answer
    | some source => simpa [entry] using answer
  · rintro ⟨node, found, entry⟩
    exact ⟨node, found, by simp [Node.source, entry]⟩

theorem mem_producers {node : Node} {outlet : Outlet} :
    outlet ∈ node.producers ↔ ∃ index : Nat, node.inputs[index]? = some (some outlet) := by
  rw [Node.producers, List.mem_filterMap]
  constructor
  · rintro ⟨source, member, same⟩
    rcases List.getElem?_of_mem member with ⟨index, entry⟩
    exact ⟨index, entry.trans (congrArg some same)⟩
  · rintro ⟨index, entry⟩
    exact ⟨some outlet, List.mem_of_getElem? entry, rfl⟩

theorem reads_unique {g : Graph} {inlet : Inlet} {first second : Outlet}
    (readsFirst : g.Reads inlet first) (readsSecond : g.Reads inlet second) : first = second := by
  have same := readsFirst.symm.trans readsSecond
  injection same with same
  injection same

theorem connectedProducer_eq_ok {g : Graph} {inlet : Inlet} {outlet : Outlet} :
    g.connectedProducer inlet = .ok outlet ↔ g.Reads inlet outlet := by
  rw [reads_iff]
  simp only [connectedProducer, Checked.bind_eq_ok, node_eq_ok, Node.source]
  constructor
  · rintro ⟨node, found, source, answer, done⟩
    refine ⟨node, found, ?_⟩
    cases entry : node.inputs[inlet.index]? with
    | none => simp [entry] at answer
    | some connected =>
        rw [entry] at answer
        rcases Except.ok.inj answer with rfl
        cases connected with
        | none => simp at done
        | some other => rw [Except.ok.inj done]
  · rintro ⟨node, found, entry⟩
    exact ⟨node, found, some outlet, by rw [entry], rfl⟩

/-! ## Dependencies -/

/-- A node reads some outlet of another. -/
def Needs (g : Graph) (id source : Nat) : Prop :=
  source ∈ g.producerIds id

/-- A chain of links, possibly empty, leads from a node back to another. -/
def Depends (g : Graph) : Nat → Nat → Prop :=
  Relation.ReflTransGen g.Needs

/-- No node needs itself, directly or through others. -/
def Acyclic (g : Graph) : Prop :=
  ∀ id, ¬ Relation.TransGen g.Needs id id

theorem mem_producerIds {g : Graph} {id source : Nat} :
    source ∈ g.producerIds id ↔
      ∃ node, g.node? id = some node ∧ ∃ outlet ∈ node.producers, outlet.node = source := by
  unfold producerIds
  cases g.node? id with
  | none => simp
  | some node => simp

theorem needs_iff {g : Graph} {id source : Nat} :
    g.Needs id source ↔ ∃ index port, g.Reads ⟨id, index⟩ ⟨source, port⟩ := by
  rw [Needs, mem_producerIds]
  constructor
  · rintro ⟨node, found, ⟨_, port⟩, member, rfl⟩
    rcases mem_producers.mp member with ⟨index, entry⟩
    exact ⟨index, port, reads_iff.mpr ⟨node, found, entry⟩⟩
  · rintro ⟨index, port, reads⟩
    rcases reads_iff.mp reads with ⟨node, found, entry⟩
    exact ⟨node, found, ⟨source, port⟩, mem_producers.mpr ⟨index, entry⟩, rfl⟩

theorem Reads.needs {g : Graph} {inlet : Inlet} {outlet : Outlet} (reads : g.Reads inlet outlet) :
    g.Needs inlet.node outlet.node :=
  needs_iff.mpr ⟨inlet.index, outlet.index, reads⟩

theorem Acyclic.not_depends_of_reads {g : Graph} (acyclic : g.Acyclic) {inlet : Inlet}
    {outlet : Outlet} (reads : g.Reads inlet outlet) : ¬ g.Depends outlet.node inlet.node :=
  fun path => acyclic inlet.node (.head' reads.needs path)

/-- Only a position that holds a node needs anything. -/
theorem Needs.contains {g : Graph} {id source : Nat} (needs : g.Needs id source) :
    g.contains id = true := by
  rcases mem_producerIds.mp needs with ⟨node, found, _⟩
  exact contains_iff.mpr ⟨node, found⟩

theorem Needs.lt_size {g : Graph} {id source : Nat} (needs : g.Needs id source) :
    id < g.slots.size := by
  rcases contains_iff.mp needs.contains with ⟨node, found⟩
  exact lt_size_of_node? found

/-- What a linked graph reads is there. -/
theorem Linked.exists_wire {g : Graph} (linked : g.Linked) {inlet : Inlet} {outlet : Outlet}
    (reads : g.Reads inlet outlet) : ∃ wire, g.wire outlet = .ok wire ∧ inlet ∈ wire.readers :=
  (linked.agree inlet outlet).mp reads

theorem Linked.mem_readers {g : Graph} (linked : g.Linked) {outlet : Outlet} {wire : Wire}
    (wired : g.wire outlet = .ok wire) (inlet : Inlet) :
    inlet ∈ wire.readers ↔ g.Reads inlet outlet := by
  rw [linked.agree]
  constructor
  · intro member
    exact ⟨wire, wired, member⟩
  · rintro ⟨found, foundWired, member⟩
    rcases Except.ok.inj (wired.symm.trans foundWired) with rfl
    exact member

/-! ## Links that agree in one direction -/

/-- An inlet reads an outlet that does not list it. -/
def Orphan (g : Graph) (inlet : Inlet) : Prop :=
  ∃ outlet, g.Reads inlet outlet ∧ ¬ g.Serves outlet inlet

/-- What is read exists, whoever is listed as a reader reads, and the readers of a
wire form a set. -/
structure Faithful (g : Graph) : Prop where
  sources : ∀ inlet outlet, g.Reads inlet outlet → ∃ wire, g.wire outlet = .ok wire
  readers : ∀ outlet inlet, g.Serves outlet inlet → g.Reads inlet outlet
  increasing : ∀ outlet wire, g.wire outlet = .ok wire → wire.readers.Pairwise (· < ·)

theorem Linked.faithful {g : Graph} (linked : g.Linked) : g.Faithful where
  sources := by
    intro inlet outlet reads
    rcases linked.exists_wire reads with ⟨wire, wired, _⟩
    exact ⟨wire, wired⟩
  readers outlet inlet serves := (linked.agree inlet outlet).mpr serves
  increasing := linked.increasing

theorem Linked.not_orphan {g : Graph} (linked : g.Linked) (inlet : Inlet) : ¬ g.Orphan inlet := by
  intro orphan
  rcases orphan with ⟨outlet, reads, unlisted⟩
  exact unlisted ((linked.agree inlet outlet).mp reads)

theorem Faithful.linked {g : Graph} (faithful : g.Faithful)
    (adopted : ∀ inlet, ¬ g.Orphan inlet) : g.Linked where
  agree := by
    intro inlet outlet
    constructor
    · intro reads
      by_contra unlisted
      exact adopted inlet ⟨outlet, reads, unlisted⟩
    · exact faithful.readers outlet inlet
  increasing := faithful.increasing

theorem Faithful.contains_of_needs {g : Graph} (faithful : g.Faithful) {id source : Nat}
    (needs : g.Needs id source) : ∃ node, g.node? source = some node := by
  rcases needs_iff.mp needs with ⟨index, port, reads⟩
  rcases faithful.sources _ _ reads with ⟨wire, wired⟩
  rcases wire_eq_ok.mp wired with ⟨node, found, _⟩
  exact ⟨node, found⟩

theorem Linked.contains_of_needs {g : Graph} (linked : g.Linked) {id source : Nat}
    (needs : g.Needs id source) : ∃ node, g.node? source = some node :=
  linked.faithful.contains_of_needs needs

/-- A change keeps the links of a graph: what was faithful stays so, and no inlet
becomes an orphan. -/
structure KeepsLinks (g h : Graph) : Prop where
  faithful : g.Faithful → h.Faithful
  orphans : g.Faithful → ∀ inlet, h.Orphan inlet → g.Orphan inlet

theorem KeepsLinks.refl (g : Graph) : g.KeepsLinks g :=
  ⟨fun faithful => faithful, fun _ _ orphan => orphan⟩

theorem KeepsLinks.trans {g h k : Graph} (first : g.KeepsLinks h) (second : h.KeepsLinks k) :
    g.KeepsLinks k where
  faithful := fun before => second.faithful (first.faithful before)
  orphans := fun before inlet orphan =>
    first.orphans before inlet (second.orphans (first.faithful before) inlet orphan)

theorem KeepsLinks.linked {g h : Graph} (keeps : g.KeepsLinks h) (linked : g.Linked) : h.Linked :=
  (keeps.faithful linked.faithful).linked fun inlet orphan =>
    linked.not_orphan inlet (keeps.orphans linked.faithful inlet orphan)

end Graph
end TensorCompiler
