import TensorCompiler.Proofs.Graph.Redirection
import TensorCompiler.Proofs.Graph.Sweeping

namespace TensorCompiler

/-!
# Intact graphs

Some facts about a graph survive every edit, including one that fails halfway: it
is faithful and acyclic, the number of nodes is counted right, and the declared
outputs are the output nodes in the order of their creation.

An edit of an intact graph leads to an intact graph, never takes a position away
and never fills an empty one.  All edits but a failed replacement of uses keep the
links as well.
-/

namespace Graph

/-- What holds of every graph that edits can make. -/
structure Intact (g : Graph) : Prop extends Faithful g where
  acyclic : g.Acyclic
  counted : g.size = g.nodeIds.length
  declared : g.outputs = g.nodeIds.filter fun id => g.op? id == some .output

section

variable {g h k : Graph}

/-! ## The books -/

theorem contains_eq (g : Graph) (id : Nat) : g.contains id = (g.op? id).isSome := by
  rw [contains, op?, Option.isSome_map]

theorem contains_of_op? {id : Nat} {op : Operator} (operator : g.op? id = some op) :
    g.contains id = true := by
  rw [contains_eq, operator, Option.isSome_some]

theorem mem_nodeIds {id : Nat} : id ∈ g.nodeIds ↔ g.contains id = true := by
  rw [nodeIds, List.mem_filter, List.mem_range, and_iff_right_iff_imp]
  intro present
  rcases contains_iff.mp present with ⟨node, found⟩
  exact lt_size_of_node? found

theorem lt_size_of_mem_nodeIds {id : Nat} (member : id ∈ g.nodeIds) : id < g.slots.size :=
  List.mem_range.mp (List.mem_filter.mp member).1

/-- An output node is declared, and nothing else is. -/
theorem Intact.mem_outputs (intact : g.Intact) {id : Nat} :
    id ∈ g.outputs ↔ g.op? id = some .output := by
  rw [intact.declared, List.mem_filter, beq_iff_eq, mem_nodeIds, contains_eq]
  apply and_iff_right_of_imp
  intro isOutput
  rw [isOutput]
  rfl

theorem Intact.contains_of_output (intact : g.Intact) {id : Nat} (isOutput : id ∈ g.outputs) :
    g.contains id = true :=
  contains_of_op? (intact.mem_outputs.mp isOutput)

/-- Two graphs have the same operators at the same positions, and agree about
which of them are declared and how many there are. -/
structure SameInventory (g h : Graph) : Prop where
  size : h.slots.size = g.slots.size
  operators : ∀ id, h.op? id = g.op? id
  outputs : h.outputs = g.outputs
  live : h.live = g.live

theorem SameInventory.nodeIds (same : g.SameInventory h) : h.nodeIds = g.nodeIds := by
  unfold Graph.nodeIds
  rw [same.size]
  apply List.filter_congr
  intro id _
  rw [contains_eq, contains_eq, same.operators]

theorem Relinked.inventory (relinked : g.Relinked h) : g.SameInventory h where
  size := relinked.nodes.size
  operators id := map_view_mono (relinked.nodes.nodes id) fun node other same => by
    have operators : node.unlinked.op = other.unlinked.op := congrArg Node.op same
    exact operators
  outputs := relinked.nodes.outputs
  live := relinked.live

theorem sameInventory_modifyNode {change : Node → Node} (g : Graph) (id : Nat)
    (keeps : ∀ node, (change node).op = node.op) : g.SameInventory (g.modifyNode id change) where
  size := slots_size_modifyNode g id change
  operators := by
    intro other
    rw [op?, node?_modifyNode, op?]
    split
    · next same =>
      rw [same, Option.map_map]
      exact congrArg (fun view => (g.node? id).map view) (funext keeps)
    · rfl
  outputs := rfl
  live := rfl

/-- A change that keeps the books keeps a graph intact if it does so for the
links. -/
theorem SameInventory.intact (same : g.SameInventory h) (intact : g.Intact)
    (faithful : h.Faithful) (acyclic : h.Acyclic) : h.Intact where
  toFaithful := faithful
  acyclic := acyclic
  counted := by
    rw [Graph.size, same.live, same.nodeIds]
    exact intact.counted
  declared := by
    rw [same.outputs, same.nodeIds, intact.declared]
    simp only [same.operators]

theorem nodeIds_restrict (g : Graph) (keep : NodeSet) :
    (g.restrict keep).nodeIds = g.nodeIds.filter keep.contains := by
  have size : (g.restrict keep).slots.size = g.slots.size := Array.size_mapIdx
  rw [Graph.nodeIds, size, Graph.nodeIds, List.filter_filter]
  apply List.filter_congr
  intro id _
  rw [contains, node?_restrict, contains]
  cases keep.contains id <;> simp

theorem op?_restrict (g : Graph) (keep : NodeSet) (id : Nat) :
    (g.restrict keep).op? id = if keep.contains id then g.op? id else none := by
  rw [op?, node?_restrict, op?]
  split
  · rw [Option.map_map]
    rfl
  · rfl

theorem Intact.swept (intact : g.Intact) : g.swept.Intact where
  toFaithful := g.keepsLinks_swept.faithful intact.toFaithful
  acyclic := intact.acyclic.swept
  counted := by
    have parts := g.nodeIds.length_eq_countP_add_countP g.reachable.contains
    have counted : g.live = g.nodeIds.length := intact.counted
    change g.live - g.countOutside g.reachable = (g.restrict g.reachable).nodeIds.length
    rw [nodeIds_restrict, ← List.countP_eq_length_filter, counted, countOutside]
    simp only [Bool.not_eq_true, Bool.decide_eq_false] at parts
    omega
  declared := by
    change g.outputs.filter g.reachable.contains = (g.restrict g.reachable).nodeIds.filter _
    rw [nodeIds_restrict, intact.declared, List.filter_filter, List.filter_filter]
    apply List.filter_congr
    intro id _
    rw [Graph.swept, op?_restrict]
    cases g.reachable.contains id <;> simp

/-- An intact graph without unreachable nodes stays as it is. -/
theorem Intact.swept_eq_self (intact : g.Intact)
    (reached : ∀ id, g.contains id = true → g.reachable.contains id = true) : g.swept = g := by
  apply restrict_eq_self reached
  · intro outlet inlet serves
    obtain ⟨node, found, _⟩ := reads_iff.mp (intact.readers outlet inlet serves)
    exact reached inlet.node (contains_iff.mpr ⟨node, found⟩)
  · intro id isOutput
    exact reached id (intact.contains_of_output isOutput)

theorem intact_empty : Graph.empty.Intact where
  sources := by
    intro inlet outlet reads
    rcases reads_iff.mp reads with ⟨_, found, _⟩
    cases found
  readers := by
    intro outlet inlet serves
    rcases serves with ⟨_, wired, _⟩
    rcases wire_eq_ok.mp wired with ⟨_, found, _⟩
    cases found
  increasing := by
    intro outlet wire wired
    rcases wire_eq_ok.mp wired with ⟨_, found, _⟩
    cases found
  acyclic := by
    intro id cycle
    rcases Relation.TransGen.head'_iff.mp cycle with ⟨_, needs, _⟩
    rcases mem_producerIds.mp needs with ⟨_, found, _⟩
    cases found
  counted := rfl
  declared := rfl

/-! ## What edits lead to -/

/-- One graph comes after another in the life of a graph.  Positions are never taken
away, and an empty one stays empty. -/
structure Evolves (g h : Graph) : Prop where
  intact : h.Intact
  size : g.slots.size ≤ h.slots.size
  gone : ∀ id, id < g.slots.size → g.node? id = none → h.node? id = none

theorem Evolves.refl (intact : g.Intact) : g.Evolves g :=
  ⟨intact, Nat.le_refl _, fun _ _ gone => gone⟩

theorem Evolves.trans (first : g.Evolves h) (second : h.Evolves k) : g.Evolves k where
  intact := second.intact
  size := Nat.le_trans first.size second.size
  gone id inside gone :=
    second.gone id (Nat.lt_of_lt_of_le inside first.size) (first.gone id inside gone)

/-- One graph comes after another, and no inlet has become an orphan. -/
structure EvolvesLinked (g h : Graph) : Prop extends Evolves g h, KeepsLinks g h

theorem EvolvesLinked.refl (intact : g.Intact) : g.EvolvesLinked g where
  toEvolves := .refl intact
  toKeepsLinks := .refl g

theorem EvolvesLinked.trans (first : g.EvolvesLinked h) (second : h.EvolvesLinked k) :
    g.EvolvesLinked k where
  toEvolves := first.toEvolves.trans second.toEvolves
  toKeepsLinks := first.toKeepsLinks.trans second.toKeepsLinks

theorem SameInventory.gone (same : g.SameInventory h) {id : Nat} (gone : g.node? id = none) :
    h.node? id = none := by
  have operator := same.operators id
  rw [op?, op?, gone, Option.map_none] at operator
  exact Option.map_eq_none_iff.mp operator

theorem SameInventory.evolves (same : g.SameInventory h) (intact : h.Intact) : g.Evolves h where
  intact := intact
  size := Nat.le_of_eq same.size.symm
  gone _ _ gone := same.gone gone

/-- Linking nodes differently is a step in the life of a graph. -/
theorem Relinked.evolves (relinked : g.Relinked h) (intact : g.Intact) : g.Evolves h :=
  relinked.inventory.evolves
    (relinked.inventory.intact intact relinked.faithful relinked.acyclic)

/-- So is a change of attributes. -/
theorem SameInventory.evolvesLinked (same : g.SameInventory h) (links : g.SameLinks h)
    (intact : g.Intact) : g.EvolvesLinked h where
  toEvolves := same.evolves <| same.intact intact
    (links.keepsLinks.faithful intact.toFaithful)
    (intact.acyclic.mono fun _ _ needs => links.needs.mp needs)
  toKeepsLinks := links.keepsLinks

theorem Intact.evolvesLinked_swept (intact : g.Intact) : g.EvolvesLinked g.swept where
  intact := intact.swept
  size := Nat.le_of_eq Array.size_mapIdx.symm
  gone := by
    intro id _ gone
    rw [Graph.swept, node?_restrict, gone]
    split <;> rfl
  toKeepsLinks := g.keepsLinks_swept

/-! ## Each edit -/

/-- Wherever an edit of an intact graph ends, the links are kept. -/
def LinksKept (g : Graph) {α : Type} (edit : Edit α) : Prop :=
  Stateful.Ends edit g (fun _ h => g.EvolvesLinked h) fun h => g.EvolvesLinked h

theorem linksKept_connect (intact : g.Intact) (inlet : Inlet) (outlet : Outlet) :
    g.LinksKept (connect inlet outlet) := by
  refine Edit.ends_step ?_ (.refl intact)
  intro _ h done
  rcases connected_eq_ok (connect_eq_ok.mp (Edit.step_eq_ok.mpr done)) with
    ⟨⟨wire, wired⟩, has, ⟨_, rfl⟩ | ⟨unread, independent, rfl⟩⟩
  · exact .refl intact
  · have links := keepsLinks_link has unread wired
    have relinked : g.Relinked (g.link inlet outlet) :=
      ⟨sameNodes_link g inlet outlet, rfl, links.faithful intact.toFaithful,
        intact.acyclic.link has independent⟩
    exact ⟨relinked.evolves intact, links⟩

/-- If the wire does not list the inlet, disconnecting fails after the inlet has
been cleared; there is no link left to keep then. -/
theorem linksKept_disconnect (intact : g.Intact) (inlet : Inlet) :
    g.LinksKept (disconnect inlet) := by
  have relinked : ∀ h, g.SameNodes h → h.live = g.live → g.KeepsLinks h →
      (∀ id source, h.Needs id source → g.Needs id source) → g.EvolvesLinked h := by
    intro h nodes live links fewer
    have relinked : g.Relinked h :=
      ⟨nodes, live, links.faithful intact.toFaithful, intact.acyclic.mono fewer⟩
    exact ⟨relinked.evolves intact, links⟩
  simp only [LinksKept, disconnect, Stateful.ends_bind]
  refine Edit.ends_ask ?_ (.refl intact)
  intro source asked
  cases source with
  | none => exact .refl intact
  | some outlet =>
      rcases intact.sources inlet outlet asked with ⟨wire, wired⟩
      simp only [Stateful.ends_bind, Stateful.ends_modify]
      rw [Stateful.ends_of_ok (Edit.ask_eq_ok.mpr ⟨wire_setSource.mpr wired, rfl⟩)]
      split
      · exact relinked _ (sameNodes_unlink g inlet outlet) rfl (keepsLinks_unlink asked)
          fun _ _ needs => needs_unlink needs
      · next unlisted =>
        apply relinked _ (sameNodes_setSource g inlet none) rfl
        · apply keepsLinks_clear
          intro other served
          rcases reads_unique asked (intact.readers other inlet served) with rfl
          rcases served with ⟨again, wiredAgain, member⟩
          rcases Except.ok.inj (wired.symm.trans wiredAgain) with rfl
          exact unlisted member
        · exact fun _ _ needs => needs_of_cleared needs

/-- Replacing uses keeps the links if it succeeds. -/
theorem evolves_replaceUses (intact : g.Intact) (old new : Outlet) :
    Stateful.Ends (replaceUses old new) g (fun _ h => g.EvolvesLinked h) fun h => g.Evolves h := by
  refine (ends_replaceUses intact.toFaithful intact.acyclic old new).imp ?_ ?_
  · intro _ h rewired
    exact ⟨rewired.toRelinked.evolves intact, rewired.keepsLinks⟩
  · intro h relinked
    exact relinked.evolves intact

theorem producer_ne_aborted (g : Graph) (inlet : Inlet) (cause : Abort) :
    g.producer inlet ≠ .error (.aborted cause) := by
  intro failed
  unfold producer node at failed
  cases found : g.node? inlet.node with
  | none =>
      rw [found] at failed
      cases failed
  | some node =>
      rw [found] at failed
      change node.source inlet.index = _ at failed
      unfold Node.source at failed
      split at failed
      · cases failed
      · cases failed

/-- In a linked graph both ends of a link are there to be taken apart. -/
theorem Linked.disconnect_ne_aborted (linked : g.Linked) (inlet : Inlet) (cause : Abort)
    (after : Graph) : disconnect inlet g ≠ .error (.aborted cause) after := by
  intro failed
  cases asked : g.producer inlet with
  | error failure =>
      have same : Edit.ask (·.producer inlet) g = .error failure g := by
        simp only [Edit.ask, asked]
      have stopped : disconnect inlet g = .error failure g :=
        Stateful.bind_eq_error.mpr (Or.inl same)
      rcases EStateM.Result.error.inj (stopped.symm.trans failed) with ⟨rfl, _⟩
      exact producer_ne_aborted g inlet cause asked
  | ok source =>
      have succeeds : ∃ h, disconnect inlet g = .ok source h := by
        simp only [disconnect, Stateful.bind_eq_ok, Edit.ask_eq_ok]
        cases source with
        | none => exact ⟨g, none, g, ⟨asked, rfl⟩, rfl⟩
        | some outlet =>
            rcases linked.exists_wire asked with ⟨wire, wired, member⟩
            refine ⟨g.unlink inlet outlet, some outlet, g, ⟨asked, rfl⟩, ?_⟩
            simp only [Stateful.bind_eq_ok, Stateful.modify_eq_ok, Edit.ask_eq_ok]
            refine ⟨⟨⟩, _, rfl, wire, _, ⟨wire_setSource.mpr wired, rfl⟩, ?_⟩
            rw [if_pos member]
            rfl
      rcases succeeds with ⟨h, done⟩
      cases done.symm.trans failed

end

end Graph
end TensorCompiler
