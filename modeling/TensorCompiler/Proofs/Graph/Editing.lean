import TensorCompiler.Graph.Edit
import TensorCompiler.Proofs.Graph.Reachability

namespace TensorCompiler

/-!
# What edits do to a graph

A graph is seen through three questions: which nodes there are and what they
are apart from their links, which outlet an inlet reads, and which wire leaves
an outlet.  Every elementary change is described by its effect on the answers,
and nothing after this module looks into the arena.

From the effects it follows that the single steps keep the links of a graph and
close no cycle.
-/

namespace Edit

variable {α : Type} {g h : Graph} {value : α}

@[simp] theorem step_eq_ok {change : Graph → Checked (α × Graph)} :
    step change g = .ok value h ↔ change g = .ok (value, h) := by
  unfold step
  cases change g with
  | ok result => simp [Prod.ext_iff]
  | error failure => simp

@[simp] theorem ask_eq_ok {question : Graph → Checked α} :
    ask question g = .ok value h ↔ question g = .ok value ∧ g = h := by
  unfold ask
  cases question g with
  | ok result => simp
  | error failure => simp

/-- A single step that fails leaves the graph alone. -/
theorem ends_step {change : Graph → Checked (α × Graph)} {succeeded : α → Graph → Prop}
    {failed : Graph → Prop}
    (success : ∀ value h, change g = .ok (value, h) → succeeded value h) (failure : failed g) :
    Stateful.Ends (step change) g succeeded failed := by
  unfold Stateful.Ends step
  cases answer : change g with
  | ok result => exact success result.1 result.2 answer
  | error cause => exact failure

/-- A question leaves the graph alone. -/
theorem ends_ask {question : Graph → Checked α} {succeeded : α → Graph → Prop}
    {failed : Graph → Prop} (success : ∀ value, question g = .ok value → succeeded value g)
    (failure : failed g) : Stateful.Ends (ask question) g succeeded failed := by
  unfold Stateful.Ends ask
  cases answer : question g with
  | ok result => exact success result answer
  | error cause => exact failure

end Edit

/-! ## Nodes without their links -/

/-- A wire without its readers. -/
def Wire.unlinked (wire : Wire) : Wire :=
  { wire with readers := [] }

/-- A node without the readers of its results. -/
def Node.unread (node : Node) : Node :=
  { node with outputs := node.outputs.map Wire.unlinked }

/-- A node without what is connected to it: the operator, the name, the marks,
the number of inputs, and the types and memories of the results. -/
def Node.unlinked (node : Node) : Node :=
  { node.unread with inputs := node.inputs.map fun _ => none }

theorem Node.unread_eq_iff {first second : Node} :
    first.unread = second.unread ↔
      first.unlinked = second.unlinked ∧ first.inputs = second.inputs := by
  rcases first with ⟨op, name, inputs, outputs, marks⟩
  rcases second with ⟨otherOp, otherName, otherInputs, otherOutputs, otherMarks⟩
  simp only [Node.unlinked, Node.unread, Node.mk.injEq]
  constructor
  · rintro ⟨rfl, rfl, rfl, sameOutputs, rfl⟩
    simp [sameOutputs]
  · rintro ⟨⟨rfl, rfl, _, sameOutputs, rfl⟩, rfl⟩
    simp [sameOutputs]

namespace Inlet

theorem lt_iff {first second : Inlet} : first < second ↔
    first.node < second.node ∨ (first.node = second.node ∧ first.index < second.index) :=
  Iff.rfl

theorem lt_trans {first second third : Inlet} (low : first < second) (high : second < third) :
    first < third := by
  rw [lt_iff] at *
  omega

theorem lt_irrefl (inlet : Inlet) : ¬ inlet < inlet := by
  rw [lt_iff]
  omega

theorem lt_of_not_lt_of_ne {first second : Inlet} (notLess : ¬ first < second)
    (different : first ≠ second) : second < first := by
  rcases first with ⟨node, index⟩
  rcases second with ⟨otherNode, otherIndex⟩
  simp only [lt_iff, ne_eq, mk.injEq] at *
  omega

theorem pairwise_insertInto {inlet : Inlet} {inlets : List Inlet}
    (increasing : inlets.Pairwise (· < ·)) : (inlet.insertInto inlets).Pairwise (· < ·) := by
  induction inlets with
  | nil => exact List.pairwise_singleton _ inlet
  | cons head rest inductionHypothesis =>
      rcases List.pairwise_cons.mp increasing with ⟨headLess, restIncreasing⟩
      unfold insertInto
      split
      · next less =>
        refine List.pairwise_cons.mpr ⟨?_, increasing⟩
        intro other member
        rcases List.mem_cons.mp member with rfl | inRest
        · exact less
        · exact lt_trans less (headLess other inRest)
      · next notLess =>
        split
        · exact increasing
        · next different =>
          refine List.pairwise_cons.mpr ⟨?_, inductionHypothesis restIncreasing⟩
          intro other member
          rcases mem_insertInto.mp member with rfl | inRest
          · exact lt_of_not_lt_of_ne notLess different
          · exact headLess other inRest

end Inlet

namespace Graph

/-- A node has an input at the given position. -/
def HasInlet (g : Graph) (inlet : Inlet) : Prop :=
  ∃ node, g.node? inlet.node = some node ∧ inlet.index < node.inputs.length

theorem Reads.hasInlet {g : Graph} {inlet : Inlet} {outlet : Outlet}
    (reads : g.Reads inlet outlet) : g.HasInlet inlet := by
  rcases reads_iff.mp reads with ⟨node, found, entry⟩
  exact ⟨node, found, (List.getElem?_eq_some_iff.mp entry).1⟩

/-- If two graphs show the same at a position, a node of one corresponds to a
node of the other. -/
theorem exists_node_of_view {α : Type} {view : Node → α} {g h : Graph} {id : Nat} {node : Node}
    (same : (h.node? id).map view = (g.node? id).map view) (found : g.node? id = some node) :
    ∃ kept, h.node? id = some kept ∧ view kept = view node := by
  rw [found, Option.map_some] at same
  exact Option.map_eq_some_iff.mp same

/-- A view that follows from another is the same wherever the other is. -/
theorem map_view_mono {α β : Type} {fine : Node → α} {coarse : Node → β}
    {first second : Option Node}
    (same : first.map fine = second.map fine)
    (follows : ∀ node other, fine node = fine other → coarse node = coarse other) :
    first.map coarse = second.map coarse := by
  cases first with
  | none =>
      rw [Option.map_none, eq_comm, Option.map_eq_none_iff] at same
      rw [same]
  | some node =>
      rw [Option.map_some, eq_comm] at same
      rcases Option.map_eq_some_iff.mp same with ⟨other, rfl, equal⟩
      rw [Option.map_some, Option.map_some, follows other node equal]

/-- Two graphs have the same nodes, up to their links. -/
structure SameNodes (g h : Graph) : Prop where
  nodes : ∀ id, (h.node? id).map Node.unlinked = (g.node? id).map Node.unlinked
  outputs : h.outputs = g.outputs
  size : h.slots.size = g.slots.size

section

variable {g h k : Graph} {inlet : Inlet} {outlet : Outlet}

theorem SameNodes.refl (g : Graph) : g.SameNodes g :=
  ⟨fun _ => rfl, rfl, rfl⟩

theorem SameNodes.trans (first : g.SameNodes h) (second : h.SameNodes k) : g.SameNodes k where
  nodes id := (second.nodes id).trans (first.nodes id)
  outputs := second.outputs.trans first.outputs
  size := second.size.trans first.size

theorem SameNodes.symm (same : g.SameNodes h) : h.SameNodes g where
  nodes id := (same.nodes id).symm
  outputs := same.outputs.symm
  size := same.size.symm

theorem SameNodes.exists_node (same : g.SameNodes h) {id : Nat} {node : Node}
    (found : g.node? id = some node) :
    ∃ kept, h.node? id = some kept ∧ kept.unlinked = node.unlinked :=
  exists_node_of_view (same.nodes id) found

theorem SameNodes.hasInlet (same : g.SameNodes h) (has : g.HasInlet inlet) : h.HasInlet inlet := by
  rcases has with ⟨node, found, inside⟩
  rcases same.exists_node found with ⟨kept, present, unlinked⟩
  have lengths := congrArg (fun node => node.inputs.length) unlinked
  simp only [Node.unlinked, List.length_map] at lengths
  exact ⟨kept, present, lengths ▸ inside⟩

/-- Nodes that are the same up to their links have the same wires. -/
theorem exists_wire_of_unlinked {node kept : Node} {wire : Wire}
    (present : h.node? outlet.node = some kept) (same : kept.unlinked = node.unlinked)
    (entry : node.outputs[outlet.index]? = some wire) :
    ∃ keptWire, h.wire outlet = .ok keptWire ∧ keptWire.unlinked = wire.unlinked := by
  have entries := congrArg (fun node => node.outputs[outlet.index]?) same
  simp only [Node.unlinked, Node.unread, List.getElem?_map, entry, Option.map_some] at entries
  rcases Option.map_eq_some_iff.mp entries with ⟨keptWire, keptEntry, sameWire⟩
  exact ⟨keptWire, wire_eq_ok.mpr ⟨kept, present, keptEntry⟩, sameWire⟩

theorem SameNodes.exists_wire (same : g.SameNodes h) {wire : Wire}
    (wired : g.wire outlet = .ok wire) :
    ∃ kept, h.wire outlet = .ok kept ∧ kept.unlinked = wire.unlinked := by
  rcases wire_eq_ok.mp wired with ⟨node, found, entry⟩
  rcases same.exists_node found with ⟨kept, present, unlinked⟩
  exact exists_wire_of_unlinked present unlinked entry

/-! ## Elementary changes -/

theorem slots_size_modifyNode (g : Graph) (id : Nat) (change : Node → Node) :
    (g.modifyNode id change).slots.size = g.slots.size :=
  Array.size_modify

/-- Setting a source changes what that one inlet reads. -/
theorem reads_setSource {source : Option Outlet} {other : Inlet} :
    (g.setSource inlet source).Reads other outlet ↔
      if other = inlet then g.HasInlet inlet ∧ source = some outlet
      else g.Reads other outlet := by
  rw [reads_iff, reads_iff, setSource]
  simp only [node?_modifyNode]
  rcases inlet with ⟨position, index⟩
  rcases other with ⟨otherPosition, otherIndex⟩
  simp only [Inlet.mk.injEq, HasInlet]
  by_cases samePosition : otherPosition = position
  · subst samePosition
    simp only [if_true, true_and, Option.map_eq_some_iff]
    by_cases sameIndex : otherIndex = index
    · subst sameIndex
      simp only [if_true]
      constructor
      · rintro ⟨_, ⟨node, found, rfl⟩, entry⟩
        rcases List.getElem?_eq_some_iff.mp entry with ⟨inside, value⟩
        rw [List.length_set] at inside
        rw [List.getElem_set_self] at value
        exact ⟨⟨node, found, inside⟩, value⟩
      · rintro ⟨⟨node, found, inside⟩, rfl⟩
        exact ⟨_, ⟨node, found, rfl⟩, List.getElem?_set_self inside⟩
    · simp only [sameIndex, if_false]
      constructor
      · rintro ⟨_, ⟨node, found, rfl⟩, entry⟩
        rw [List.getElem?_set_ne (Ne.symm sameIndex)] at entry
        exact ⟨node, found, entry⟩
      · rintro ⟨node, found, entry⟩
        refine ⟨_, ⟨node, found, rfl⟩, ?_⟩
        rw [List.getElem?_set_ne (Ne.symm sameIndex)]
        exact entry
  · simp [samePosition]

theorem wire_setSource {source : Option Outlet} {wire : Wire} :
    (g.setSource inlet source).wire outlet = .ok wire ↔ g.wire outlet = .ok wire := by
  simp only [wire_eq_ok, setSource, node?_modifyNode]
  split
  · next same =>
    rw [same]
    simp only [Option.map_eq_some_iff]
    constructor
    · rintro ⟨_, ⟨node, found, rfl⟩, entry⟩
      exact ⟨node, found, entry⟩
    · rintro ⟨node, found, entry⟩
      exact ⟨_, ⟨node, found, rfl⟩, entry⟩
  · exact Iff.rfl

theorem sameNodes_setSource (g : Graph) (inlet : Inlet) (source : Option Outlet) :
    g.SameNodes (g.setSource inlet source) := by
  refine ⟨?_, rfl, slots_size_modifyNode _ _ _⟩
  intro id
  rw [setSource, node?_modifyNode]
  split
  · next same =>
    rw [same, Option.map_map]
    congr 1
    funext node
    simp only [Function.comp_apply, Node.unlinked, Node.unread, List.map_set, Node.mk.injEq,
      true_and, and_true]
    rw [List.map_const', List.set_replicate_self]
  · rfl

theorem reads_modifyWire {change : Wire → Wire} {target : Outlet} :
    (g.modifyWire target change).Reads inlet outlet ↔ g.Reads inlet outlet := by
  simp only [reads_iff, modifyWire, node?_modifyNode]
  split
  · next same =>
    rw [same]
    simp only [Option.map_eq_some_iff]
    constructor
    · rintro ⟨_, ⟨node, found, rfl⟩, entry⟩
      exact ⟨node, found, entry⟩
    · rintro ⟨node, found, entry⟩
      exact ⟨_, ⟨node, found, rfl⟩, entry⟩
  · exact Iff.rfl

/-- Changing a wire changes the answer at that one outlet. -/
theorem wire_modifyWire {change : Wire → Wire} {other : Outlet} {wire : Wire} :
    (g.modifyWire outlet change).wire other = .ok wire ↔
      if other = outlet then ∃ old, g.wire outlet = .ok old ∧ change old = wire
      else g.wire other = .ok wire := by
  rcases outlet with ⟨position, index⟩
  rcases other with ⟨otherPosition, otherIndex⟩
  simp only [wire_eq_ok, modifyWire, node?_modifyNode, Outlet.mk.injEq]
  by_cases samePosition : otherPosition = position
  · subst samePosition
    simp only [if_true, true_and, Option.map_eq_some_iff]
    by_cases sameIndex : otherIndex = index
    · subst sameIndex
      simp only [if_true]
      constructor
      · rintro ⟨_, ⟨node, found, rfl⟩, entry⟩
        rw [List.getElem?_modify_eq] at entry
        rcases Option.map_eq_some_iff.mp entry with ⟨old, oldEntry, changed⟩
        exact ⟨old, ⟨node, found, oldEntry⟩, changed⟩
      · rintro ⟨old, ⟨node, found, entry⟩, rfl⟩
        refine ⟨_, ⟨node, found, rfl⟩, ?_⟩
        rw [List.getElem?_modify_eq, entry]
        rfl
    · simp only [sameIndex, if_false]
      constructor
      · rintro ⟨_, ⟨node, found, rfl⟩, entry⟩
        rw [List.getElem?_modify_ne _ _ (Ne.symm sameIndex)] at entry
        exact ⟨node, found, entry⟩
      · rintro ⟨node, found, entry⟩
        refine ⟨_, ⟨node, found, rfl⟩, ?_⟩
        rw [List.getElem?_modify_ne _ _ (Ne.symm sameIndex)]
        exact entry
  · simp [samePosition]

theorem node?_unread_modifyWire {change : Wire → Wire} (g : Graph) (outlet : Outlet) (id : Nat)
    (keeps : ∀ wire, (change wire).unlinked = wire.unlinked) :
    ((g.modifyWire outlet change).node? id).map Node.unread = (g.node? id).map Node.unread := by
  rw [modifyWire, node?_modifyNode]
  split
  · next same =>
    rw [same, Option.map_map]
    congr 1
    funext node
    simp only [Function.comp_apply, Node.unread, Node.mk.injEq, true_and, and_true]
    apply List.ext_getElem?
    intro index
    rw [List.getElem?_map, List.getElem?_map, List.getElem?_modify]
    cases node.outputs[index]? with
    | none => rfl
    | some wire =>
        simp only [Option.map_some]
        split
        · exact congrArg some (keeps wire)
        · rfl
  · rfl

theorem sameNodes_modifyWire {change : Wire → Wire} (g : Graph) (outlet : Outlet)
    (keeps : ∀ wire, (change wire).unlinked = wire.unlinked) :
    g.SameNodes (g.modifyWire outlet change) where
  nodes id := map_view_mono (node?_unread_modifyWire g outlet id keeps)
    fun _ _ same => (Node.unread_eq_iff.mp same).1
  outputs := rfl
  size := slots_size_modifyNode _ _ _

/-- Both ends of a new link, as far as the inlets are concerned. -/
theorem reads_link {other : Inlet} {target : Outlet} (has : g.HasInlet inlet) :
    (g.link inlet outlet).Reads other target ↔
      if other = inlet then target = outlet else g.Reads other target := by
  rw [link, reads_modifyWire, reads_setSource]
  split
  · rw [and_iff_right has, Option.some.injEq, eq_comm]
  · exact Iff.rfl

theorem wire_link {other : Outlet} {wire : Wire} :
    (g.link inlet outlet).wire other = .ok wire ↔
      if other = outlet then
        ∃ old, g.wire outlet = .ok old ∧ { old with readers := inlet.insertInto old.readers } = wire
      else g.wire other = .ok wire := by
  rw [link, wire_modifyWire]
  split
  · simp only [wire_setSource]
  · rw [wire_setSource]

theorem serves_link {other : Inlet} {target : Outlet} {wire : Wire}
    (wired : g.wire outlet = .ok wire) :
    (g.link inlet outlet).Serves target other ↔
      g.Serves target other ∨ (target = outlet ∧ other = inlet) := by
  simp only [Serves, wire_link]
  by_cases same : target = outlet
  · subst same
    simp only [if_true, true_and, wired, Except.ok.injEq, exists_eq_left']
    rw [Inlet.mem_insertInto, or_comm]
  · simp [same]

theorem node?_setSource_of_ne {source : Option Outlet} {id : Nat} (different : id ≠ inlet.node) :
    (g.setSource inlet source).node? id = g.node? id := by
  rw [setSource, node?_modifyNode, if_neg different]

/-- But for readers, a new link changes no node other than the one that reads. -/
theorem node?_unread_link (g : Graph) (inlet : Inlet) (outlet : Outlet) (id : Nat) :
    ((g.link inlet outlet).node? id).map Node.unread =
      ((g.setSource inlet (some outlet)).node? id).map Node.unread :=
  node?_unread_modifyWire _ _ _ fun _ => rfl

theorem sameNodes_link (g : Graph) (inlet : Inlet) (outlet : Outlet) :
    g.SameNodes (g.link inlet outlet) :=
  (sameNodes_setSource g inlet (some outlet)).trans (sameNodes_modifyWire _ _ fun _ => rfl)

end

/-! ## Single steps keep links and close no cycle -/

section

variable {g h : Graph} {inlet : Inlet} {outlet : Outlet}

/-- Fewer links make no cycle. -/
theorem Acyclic.mono (acyclic : g.Acyclic)
    (fewer : ∀ id source, h.Needs id source → g.Needs id source) : h.Acyclic :=
  fun id cycle => acyclic id (Relation.TransGen.mono fewer id id cycle)

theorem Depends.mono {id target : Nat} (depends : h.Depends id target)
    (fewer : ∀ id source, h.Needs id source → g.Needs id source) : g.Depends id target :=
  Relation.ReflTransGen.mono fewer id target depends

/-- A free inlet can be linked to any wire. -/
theorem keepsLinks_link {wire : Wire} (has : g.HasInlet inlet)
    (unread : ∀ other, ¬ g.Reads inlet other) (wired : g.wire outlet = .ok wire) :
    g.KeepsLinks (g.link inlet outlet) := by
  refine ⟨fun faithful => ⟨?_, ?_, ?_⟩, fun _ other orphan => ?_⟩
  · intro other target reads
    have before : ∃ wire, g.wire target = .ok wire := by
      rw [reads_link has] at reads
      split at reads
      · exact ⟨wire, reads ▸ wired⟩
      · exact faithful.sources other target reads
    rcases before with ⟨old, oldWired⟩
    rcases (sameNodes_link g inlet outlet).exists_wire oldWired with ⟨kept, keptWired, _⟩
    exact ⟨kept, keptWired⟩
  · intro target other serves
    rw [reads_link has]
    rcases (serves_link wired).mp serves with before | ⟨isOutlet, isInlet⟩
    · have reads := faithful.readers target other before
      rw [if_neg]
      · exact reads
      · intro same
        exact unread target (same ▸ reads)
    · rw [if_pos isInlet]
      exact isOutlet
  · intro target found foundWired
    rw [wire_link] at foundWired
    split at foundWired
    · rcases foundWired with ⟨old, oldWired, same⟩
      rw [← same]
      exact Inlet.pairwise_insertInto (faithful.increasing outlet old oldWired)
    · exact faithful.increasing target found foundWired
  · rcases orphan with ⟨target, reads, unlisted⟩
    rw [serves_link wired] at unlisted
    rw [reads_link has] at reads
    split at reads
    · next same => exact absurd (Or.inr ⟨reads, same⟩) unlisted
    · exact ⟨target, reads, fun serves => unlisted (Or.inl serves)⟩

theorem needs_link {id source : Nat} (has : g.HasInlet inlet)
    (needs : (g.link inlet outlet).Needs id source) :
    g.Needs id source ∨ (id = inlet.node ∧ source = outlet.node) := by
  rcases needs_iff.mp needs with ⟨index, port, reads⟩
  rw [reads_link has] at reads
  split at reads
  · next same =>
    subst reads
    exact Or.inr ⟨congrArg Inlet.node same, rfl⟩
  · exact Or.inl reads.needs

/-- A link from a node to one that does not depend on it closes no cycle. -/
theorem Acyclic.link (acyclic : g.Acyclic) (has : g.HasInlet inlet)
    (independent : ¬ g.Depends outlet.node inlet.node) : (g.link inlet outlet).Acyclic := by
  -- A path in the new graph is one in the old graph, or it goes through the new link.
  have paths : ∀ id target, Relation.TransGen (g.link inlet outlet).Needs id target →
      Relation.TransGen g.Needs id target ∨
        (g.Depends id inlet.node ∧ g.Depends outlet.node target) := by
    intro id target path
    induction path with
    | single needs =>
        rcases needs_link has needs with old | ⟨rfl, rfl⟩
        · exact Or.inl (.single old)
        · exact Or.inr ⟨.refl, .refl⟩
    | tail _ needs inductionHypothesis =>
        rcases needs_link has needs with old | ⟨rfl, rfl⟩
        · exact inductionHypothesis.imp (fun path => path.tail old)
            (fun ⟨before, behind⟩ => ⟨before, behind.tail old⟩)
        · refine Or.inr ⟨?_, .refl⟩
          exact inductionHypothesis.elim (fun path => path.to_reflTransGen) (fun both => both.1)
  intro id cycle
  rcases paths id id cycle with old | ⟨before, behind⟩
  · exact acyclic id old
  · exact independent (behind.trans before)

/-- When a connection is made, and what it changes. -/
theorem connected_eq_ok (done : g.connected inlet outlet = .ok h) :
    (∃ wire, g.wire outlet = .ok wire) ∧ g.HasInlet inlet ∧
      ((g.Reads inlet outlet ∧ h = g) ∨
        ((∀ other, ¬ g.Reads inlet other) ∧ ¬ g.Depends outlet.node inlet.node ∧
          h = g.link inlet outlet)) := by
  simp only [connected, Checked.bind_eq_ok, node_eq_ok] at done
  rcases done with ⟨consumer, found, previous, source, producer, _, wire, wired, done⟩
  have entry : consumer.inputs[inlet.index]? = some previous := by
    unfold Node.source at source
    split at source
    · next entry => rw [entry, Except.ok.inj source]
    · cases source
  refine ⟨⟨wire, wired⟩, ⟨consumer, found, (List.getElem?_eq_some_iff.mp entry).1⟩, ?_⟩
  cases previous with
  | some old =>
      simp only at done
      split at done
      · next same =>
        refine Or.inl ⟨reads_iff.mpr ⟨consumer, found, ?_⟩, (Except.ok.inj done).symm⟩
        rw [entry, same]
      · cases done
  | none =>
      simp only at done
      split at done
      · cases done
      · next free =>
        refine Or.inr ⟨?_, ?_, (Except.ok.inj done).symm⟩
        · intro other reads
          rcases reads_iff.mp reads with ⟨again, foundAgain, other⟩
          rcases Option.some.inj (found.symm.trans foundAgain) with rfl
          rw [entry] at other
          cases other
        · rw [← dependsOn_iff]
          exact free

theorem connect_eq_ok : connect inlet outlet g = .ok () h ↔ g.connected inlet outlet = .ok h := by
  simp only [connect, Edit.step_eq_ok, Checked.bind_eq_ok, Checked.pure_eq_ok, Prod.mk.injEq,
    true_and, exists_eq_right]

/-- A free inlet can be connected to any wire that does not depend on it. -/
theorem connected_of_free {wire : Wire} (has : g.HasInlet inlet)
    (unread : ∀ other, ¬ g.Reads inlet other) (wired : g.wire outlet = .ok wire)
    (independent : g.dependsOn outlet.node inlet.node = false) :
    g.connected inlet outlet = .ok (g.link inlet outlet) := by
  rcases has with ⟨consumer, found, inside⟩
  rcases wire_eq_ok.mp wired with ⟨producer, producerFound, _⟩
  have free : consumer.inputs[inlet.index]? = some none := by
    rw [List.getElem?_eq_getElem inside]
    cases entry : consumer.inputs[inlet.index] with
    | none => rfl
    | some other =>
        refine absurd (reads_iff.mpr ⟨consumer, found, ?_⟩) (unread other)
        rw [List.getElem?_eq_getElem inside, entry]
  simp only [connected, node_eq_ok.mpr found, node_eq_ok.mpr producerFound, wired, Node.source,
    free, independent, bind, Except.bind, Bool.false_eq_true, if_false]

/-! ## New nodes -/

theorem node?_push {node : Node} (id : Nat) :
    (g.push node).node? id = if id = g.slots.size then some node else g.node? id := by
  rw [node?, node?, push, Array.getElem?_push]
  split <;> rfl

theorem node?_size (g : Graph) : g.node? g.slots.size = none :=
  node?_of_size_le (Nat.le_refl _)

theorem addNode_eq_ok {op : Operator} {name : String} {types : List TensorType} {id : Nat} :
    addNode op name types g = .ok id h ↔
      types.length = op.outputCount ∧ id = g.slots.size ∧ h = g.push (freshNode op name types) := by
  rw [addNode, Edit.step_eq_ok]
  split
  · next counts => simp [counts, eq_comm]
  · next wrong => simp [wrong]

theorem reads_push {op : Operator} {name : String} {types : List TensorType} :
    (g.push (freshNode op name types)).Reads inlet outlet ↔ g.Reads inlet outlet := by
  simp only [reads_iff, node?_push]
  split
  · next fresh =>
    rw [fresh, node?_size]
    constructor
    · rintro ⟨_, same, entry⟩
      rcases Option.some.inj same with rfl
      have impossible := List.eq_of_mem_replicate (List.mem_of_getElem? entry)
      cases impossible
    · rintro ⟨_, impossible, _⟩
      cases impossible
  · exact Iff.rfl

theorem wire_push {op : Operator} {name : String} {types : List TensorType} {wire : Wire} :
    (g.push (freshNode op name types)).wire outlet = .ok wire ↔
      g.wire outlet = .ok wire ∨ (outlet.node = g.slots.size ∧
        ∃ type, types[outlet.index]? = some type ∧
          wire = { type := type, memory := homeMemory op }) := by
  simp only [wire_eq_ok, node?_push]
  by_cases fresh : outlet.node = g.slots.size
  · rw [if_pos fresh, fresh, node?_size]
    simp [freshNode, eq_comm (a := wire)]
  · simp [fresh]

theorem keepsLinks_push {op : Operator} {name : String} {types : List TensorType} :
    g.KeepsLinks (g.push (freshNode op name types)) := by
  have serves : ∀ inlet outlet,
      (g.push (freshNode op name types)).Serves outlet inlet ↔ g.Serves outlet inlet := by
    intro inlet outlet
    constructor
    · intro served
      rcases served with ⟨wire, wired, member⟩
      rcases wire_push.mp wired with old | ⟨_, type, _, rfl⟩
      · exact ⟨wire, old, member⟩
      · cases member
    · intro served
      rcases served with ⟨wire, wired, member⟩
      exact ⟨wire, wire_push.mpr (Or.inl wired), member⟩
  refine ⟨fun faithful => ⟨?_, ?_, ?_⟩, fun _ inlet orphan => ?_⟩
  · intro inlet outlet reads
    rcases faithful.sources inlet outlet (reads_push.mp reads) with ⟨wire, wired⟩
    exact ⟨wire, wire_push.mpr (Or.inl wired)⟩
  · intro outlet inlet served
    exact reads_push.mpr (faithful.readers outlet inlet ((serves inlet outlet).mp served))
  · intro outlet wire wired
    rcases wire_push.mp wired with old | ⟨_, type, _, rfl⟩
    · exact faithful.increasing outlet wire old
    · exact List.Pairwise.nil
  · rcases orphan with ⟨outlet, reads, unlisted⟩
    rw [serves] at unlisted
    exact ⟨outlet, reads_push.mp reads, unlisted⟩

theorem needs_push {op : Operator} {name : String} {types : List TensorType} {id source : Nat} :
    (g.push (freshNode op name types)).Needs id source ↔ g.Needs id source := by
  simp only [needs_iff, reads_push]

theorem Acyclic.push {op : Operator} {name : String} {types : List TensorType}
    (acyclic : g.Acyclic) : (g.push (freshNode op name types)).Acyclic :=
  acyclic.mono fun _ _ needs => needs_push.mp needs

/-! ## Removing a link -/

/-- The graph in which an inlet no longer reads an outlet. -/
def unlink (g : Graph) (inlet : Inlet) (outlet : Outlet) : Graph :=
  (g.setSource inlet none).modifyWire outlet fun wire =>
    { wire with readers := wire.readers.erase inlet }

theorem disconnect_eq_ok {previous : Option Outlet}
    (done : disconnect inlet g = .ok previous h) :
    h = g ∨ ∃ outlet, g.Reads inlet outlet ∧ h = g.unlink inlet outlet := by
  simp only [disconnect, Stateful.bind_eq_ok, Edit.ask_eq_ok] at done
  rcases done with ⟨source, _, ⟨asked, rfl⟩, done⟩
  cases source with
  | none =>
      rw [Stateful.pure_eq_ok] at done
      exact Or.inl done.2.symm
  | some outlet =>
      simp only [Stateful.bind_eq_ok, Stateful.modify_eq_ok, Edit.ask_eq_ok] at done
      rcases done with ⟨_, _, rfl, wire, _, ⟨_, rfl⟩, done⟩
      split at done
      · simp only [Stateful.bind_eq_ok, Stateful.modify_eq_ok, Stateful.pure_eq_ok] at done
        rcases done with ⟨_, _, rfl, _, rfl⟩
        exact Or.inr ⟨outlet, asked, rfl⟩
      · exact absurd done Stateful.abort_ne_ok

theorem reads_unlink {other : Inlet} {target : Outlet} :
    (g.unlink inlet outlet).Reads other target ↔ other ≠ inlet ∧ g.Reads other target := by
  rw [unlink, reads_modifyWire, reads_setSource]
  split
  · next same => simp [same]
  · next different => simp [different]

theorem wire_unlink {other : Outlet} {wire : Wire} :
    (g.unlink inlet outlet).wire other = .ok wire ↔
      if other = outlet then
        ∃ old, g.wire outlet = .ok old ∧ { old with readers := old.readers.erase inlet } = wire
      else g.wire other = .ok wire := by
  rw [unlink, wire_modifyWire]
  split
  · simp only [wire_setSource]
  · rw [wire_setSource]

theorem sameNodes_unlink (g : Graph) (inlet : Inlet) (outlet : Outlet) :
    g.SameNodes (g.unlink inlet outlet) :=
  (sameNodes_setSource g inlet none).trans (sameNodes_modifyWire _ _ fun _ => rfl)

theorem Faithful.nodup_readers {wire : Wire} (faithful : g.Faithful)
    (wired : g.wire outlet = .ok wire) : wire.readers.Nodup := by
  apply (faithful.increasing outlet wire wired).imp
  rintro first second less rfl
  exact Inlet.lt_irrefl first less

theorem serves_unlink (faithful : g.Faithful) {other : Inlet} {target : Outlet} :
    (g.unlink inlet outlet).Serves target other ↔
      g.Serves target other ∧ (target = outlet → other ≠ inlet) := by
  simp only [Serves, wire_unlink]
  by_cases same : target = outlet
  · simp only [same, if_true, true_implies]
    constructor
    · rintro ⟨_, ⟨wire, wired, rfl⟩, member⟩
      rcases (faithful.nodup_readers wired).mem_erase_iff.mp member with ⟨different, old⟩
      exact ⟨⟨wire, wired, old⟩, different⟩
    · rintro ⟨⟨wire, wired, member⟩, different⟩
      refine ⟨_, ⟨wire, wired, rfl⟩, ?_⟩
      exact (faithful.nodup_readers wired).mem_erase_iff.mpr ⟨different, member⟩
  · simp [same]

theorem keepsLinks_unlink (reads : g.Reads inlet outlet) :
    g.KeepsLinks (g.unlink inlet outlet) := by
  refine ⟨fun faithful => ⟨?_, ?_, ?_⟩, fun faithful other orphan => ?_⟩
  · intro other target readsAfter
    rcases faithful.sources other target (reads_unlink.mp readsAfter).2 with ⟨wire, wired⟩
    rcases (sameNodes_unlink g inlet outlet).exists_wire wired with ⟨kept, keptWired, _⟩
    exact ⟨kept, keptWired⟩
  · intro target other serves
    rcases (serves_unlink faithful).mp serves with ⟨before, different⟩
    have readsBefore := faithful.readers target other before
    refine reads_unlink.mpr ⟨?_, readsBefore⟩
    rintro rfl
    exact different (reads_unique readsBefore reads) rfl
  · intro target wire wired
    rw [wire_unlink] at wired
    split at wired
    · rcases wired with ⟨old, oldWired, rfl⟩
      exact (faithful.increasing outlet old oldWired).sublist List.erase_sublist
    · exact faithful.increasing target wire wired
  · rcases orphan with ⟨target, readsAfter, unlisted⟩
    rcases reads_unlink.mp readsAfter with ⟨different, readsBefore⟩
    refine ⟨target, readsBefore, ?_⟩
    intro serves
    exact unlisted ((serves_unlink faithful).mpr ⟨serves, fun _ => different⟩)

/-- An inlet that no wire lists can be cleared. -/
theorem keepsLinks_clear (unlisted : ∀ outlet, ¬ g.Serves outlet inlet) :
    g.KeepsLinks (g.setSource inlet none) := by
  have serves : ∀ other outlet,
      (g.setSource inlet none).Serves outlet other ↔ g.Serves outlet other := by
    intro other outlet
    simp only [Serves, wire_setSource]
  refine ⟨fun faithful => ⟨?_, ?_, ?_⟩, fun _ other orphan => ?_⟩
  · intro other outlet reads
    rw [reads_setSource] at reads
    split at reads
    · cases reads.2
    · rcases faithful.sources other outlet reads with ⟨wire, wired⟩
      exact ⟨wire, wire_setSource.mpr wired⟩
  · intro outlet other served
    rw [serves] at served
    rw [reads_setSource, if_neg]
    · exact faithful.readers outlet other served
    · rintro rfl
      exact unlisted outlet served
  · intro outlet wire wired
    exact faithful.increasing outlet wire (wire_setSource.mp wired)
  · rcases orphan with ⟨outlet, reads, unserved⟩
    rw [serves] at unserved
    rw [reads_setSource] at reads
    split at reads
    · cases reads.2
    · exact ⟨outlet, reads, unserved⟩

theorem needs_unlink {id source : Nat} (needs : (g.unlink inlet outlet).Needs id source) :
    g.Needs id source := by
  rcases needs_iff.mp needs with ⟨index, port, reads⟩
  exact (reads_unlink.mp reads).2.needs

/-! ## Changing attributes -/

theorem updateNode_eq_ok {id : Nat} {change : Node → Node}
    (done : updateNode id change g = .ok () h) : h = g.modifyNode id change := by
  simp only [updateNode, Edit.step_eq_ok, Checked.bind_eq_ok, Checked.pure_eq_ok,
    Prod.mk.injEq, true_and] at done
  rcases done with ⟨_, _, rfl⟩
  rfl

theorem updateWire_eq_ok {outlet : Outlet} {change : Wire → Wire}
    (done : updateWire outlet change g = .ok () h) : h = g.modifyWire outlet change := by
  simp only [updateWire, Edit.step_eq_ok, Checked.bind_eq_ok, Checked.pure_eq_ok,
    Prod.mk.injEq, true_and] at done
  rcases done with ⟨_, _, rfl⟩
  rfl

/-- Two graphs have the same links. -/
structure SameLinks (g h : Graph) : Prop where
  reads : ∀ inlet outlet, h.Reads inlet outlet ↔ g.Reads inlet outlet
  readers : ∀ outlet inlets, h.readers outlet = .ok inlets ↔ g.readers outlet = .ok inlets

theorem readers_eq_ok {inlets : List Inlet} :
    g.readers outlet = .ok inlets ↔ ∃ wire, g.wire outlet = .ok wire ∧ wire.readers = inlets := by
  simp only [readers, Checked.bind_eq_ok, Checked.pure_eq_ok]

theorem SameLinks.serves (same : g.SameLinks h) :
    h.Serves outlet inlet ↔ g.Serves outlet inlet := by
  have listed : ∀ {graph : Graph}, graph.Serves outlet inlet ↔
      ∃ inlets, graph.readers outlet = .ok inlets ∧ inlet ∈ inlets := by
    intro graph
    simp only [Serves, readers_eq_ok]
    constructor
    · rintro ⟨wire, wired, member⟩
      exact ⟨wire.readers, ⟨wire, wired, rfl⟩, member⟩
    · rintro ⟨_, ⟨wire, wired, rfl⟩, member⟩
      exact ⟨wire, wired, member⟩
  simp only [listed, same.readers]

theorem SameLinks.keepsLinks (same : g.SameLinks h) : g.KeepsLinks h := by
  refine ⟨fun faithful => ⟨?_, ?_, ?_⟩, fun _ inlet orphan => ?_⟩
  · intro inlet outlet reads
    rcases faithful.sources inlet outlet ((same.reads inlet outlet).mp reads) with ⟨wire, wired⟩
    have served := (same.readers outlet wire.readers).mpr (readers_eq_ok.mpr ⟨wire, wired, rfl⟩)
    rcases readers_eq_ok.mp served with ⟨kept, keptWired, _⟩
    exact ⟨kept, keptWired⟩
  · intro outlet inlet serves
    exact (same.reads inlet outlet).mpr (faithful.readers outlet inlet (same.serves.mp serves))
  · intro outlet wire wired
    have served := (same.readers outlet wire.readers).mp (readers_eq_ok.mpr ⟨wire, wired, rfl⟩)
    rcases readers_eq_ok.mp served with ⟨old, oldWired, readers⟩
    exact readers ▸ faithful.increasing outlet old oldWired
  · rcases orphan with ⟨outlet, reads, unlisted⟩
    rw [same.serves] at unlisted
    exact ⟨outlet, (same.reads inlet outlet).mp reads, unlisted⟩

theorem SameLinks.needs (same : g.SameLinks h) {id source : Nat} :
    h.Needs id source ↔ g.Needs id source := by
  simp only [needs_iff, same.reads]

/-- Changing a node without touching its inputs and results keeps the links. -/
theorem sameLinks_modifyNode {change : Node → Node} (g : Graph) (id : Nat)
    (inputs : ∀ node, (change node).inputs = node.inputs)
    (outputs : ∀ node, (change node).outputs = node.outputs) :
    g.SameLinks (g.modifyNode id change) := by
  constructor
  · intro inlet outlet
    simp only [reads_iff, node?_modifyNode]
    split
    · next same => simp [same, inputs]
    · exact Iff.rfl
  · intro outlet inlets
    simp only [readers_eq_ok, wire_eq_ok, node?_modifyNode]
    split
    · next same => simp [same, outputs]
    · exact Iff.rfl

/-- Changing a wire without touching its readers keeps the links. -/
theorem sameLinks_modifyWire {change : Wire → Wire} (g : Graph) (target : Outlet)
    (keeps : ∀ wire, (change wire).readers = wire.readers) :
    g.SameLinks (g.modifyWire target change) := by
  constructor
  · intro inlet outlet
    exact reads_modifyWire
  · intro outlet inlets
    simp only [readers_eq_ok, wire_modifyWire]
    split
    · next same =>
      subst same
      constructor
      · rintro ⟨_, ⟨old, wired, rfl⟩, readers⟩
        exact ⟨old, wired, (keeps old).symm.trans readers⟩
      · rintro ⟨old, wired, readers⟩
        exact ⟨_, ⟨old, wired, rfl⟩, (keeps old).trans readers⟩
    · exact Iff.rfl

end

end Graph
end TensorCompiler
