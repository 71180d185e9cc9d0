import TensorCompiler.Proofs.Graph.Redirection

namespace TensorCompiler

/-!
# Building beside a region

A rule builds its replacement next to the nodes it has matched.  It may add
nodes, connect them to each other and to anything that does not depend on the
match, take such connections back, and change what its own nodes are called and
how they are marked and stored.

However many of these steps it takes, the old nodes stay as they are but for
new readers, the graph keeps its links and stays acyclic, and none of the new nodes
depends on the match.
-/

namespace Graph

/-- The graphs that can be built next to some matched nodes. -/
inductive Grown (g : Graph) (matched : List Nat) : Graph → Prop where
  | start : Grown g matched g
  | add {before after : Graph} {op : Operator} {name : String} {types : List TensorType} {id : Nat}
      (earlier : Grown g matched before) (done : addNode op name types before = .ok id after) :
      Grown g matched after
  | connect {before after : Graph} {inlet : Inlet} {outlet : Outlet}
      (earlier : Grown g matched before) (fresh : g.slots.size ≤ inlet.node)
      (source : g.slots.size ≤ outlet.node ∨ ∀ id ∈ matched, ¬ before.Depends outlet.node id)
      (done : connect inlet outlet before = .ok () after) : Grown g matched after
  | disconnect {before after : Graph} {inlet : Inlet} {previous : Option Outlet}
      (earlier : Grown g matched before) (fresh : g.slots.size ≤ inlet.node)
      (done : disconnect inlet before = .ok previous after) : Grown g matched after
  | changeNode {before after : Graph} {id : Nat} {change : Node → Node}
      (earlier : Grown g matched before) (fresh : g.slots.size ≤ id)
      (inputs : ∀ node, (change node).inputs = node.inputs)
      (outputs : ∀ node, (change node).outputs = node.outputs)
      (done : updateNode id change before = .ok () after) : Grown g matched after
  | changeWire {before after : Graph} {outlet : Outlet} {change : Wire → Wire}
      (earlier : Grown g matched before) (fresh : g.slots.size ≤ outlet.node)
      (readers : ∀ wire, (change wire).readers = wire.readers)
      (done : updateWire outlet change before = .ok () after) : Grown g matched after

/-- What is true of every graph built next to some matched nodes, whatever the
links were like before. -/
structure Enlarges (g : Graph) (matched : List Nat) (h : Graph) : Prop where
  links : g.KeepsLinks h
  acyclic : h.Acyclic
  size : g.slots.size ≤ h.slots.size
  old : ∀ id, id < g.slots.size → (h.node? id).map Node.unread = (g.node? id).map Node.unread
  independent : ∀ id, g.slots.size ≤ id → ∀ target ∈ matched, ¬ h.Depends id target
  declared : ∃ more, h.outputs = g.outputs ++ more ∧ ∀ id ∈ more, g.slots.size ≤ id

/-- What is true of every graph built next to some matched nodes of a linked
graph. -/
structure Extends (g : Graph) (matched : List Nat) (h : Graph) : Prop
    extends Enlarges g matched h where
  linked : h.Linked

section

variable {g h : Graph} {matched : List Nat}

/-! ## Each step -/

/-- The nodes that depend on a matched node. -/
def Late (g : Graph) (matched : List Nat) (id : Nat) : Prop :=
  ∃ target ∈ matched, g.Depends id target

theorem downstream_late (g : Graph) (matched : List Nat) : g.Downstream (g.Late matched) := by
  rintro id source needs ⟨target, member, depends⟩
  exact ⟨target, member, depends.head needs⟩

theorem Late.of_mem {target : Nat} (member : target ∈ matched) : g.Late matched target :=
  ⟨target, member, .refl⟩

theorem Enlarges.start (acyclic : g.Acyclic)
    (present : ∀ id ∈ matched, id < g.slots.size) : g.Enlarges matched g where
  links := .refl g
  acyclic := acyclic
  size := Nat.le_refl _
  old _ _ := rfl
  independent := by
    intro id fresh target member depends
    rcases Relation.ReflTransGen.cases_head depends with rfl | ⟨_, needs, _⟩
    · exact absurd (present id member) (Nat.not_lt.mpr fresh)
    · exact absurd needs.lt_size (Nat.not_lt.mpr fresh)
  declared := ⟨[], (List.append_nil _).symm, fun _ member => absurd member List.not_mem_nil⟩

theorem Enlarges.add {op : Operator} {name : String} {types : List TensorType}
    (growth : g.Enlarges matched h) :
    g.Enlarges matched (h.push (freshNode op name types)) where
  links := growth.links.trans keepsLinks_push
  acyclic := growth.acyclic.push
  size := by
    rw [push, Array.size_push]
    exact Nat.le_succ_of_le growth.size
  old := by
    intro id inside
    rw [node?_push, if_neg (Nat.ne_of_lt (Nat.lt_of_lt_of_le inside growth.size))]
    exact growth.old id inside
  independent := by
    intro id fresh target member depends
    exact growth.independent id fresh target member
      (depends.mono fun _ _ needs => needs_push.mp needs)
  declared := by
    rcases growth.declared with ⟨more, outputs, fresh⟩
    unfold push
    split
    · refine ⟨more ++ [h.slots.size], by simp [outputs], ?_⟩
      intro id member
      rcases List.mem_append.mp member with old | new
      · exact fresh id old
      · rw [List.mem_singleton.mp new]
        exact growth.size
    · exact ⟨more, outputs, fresh⟩

/-- A new link from a new node to something that does not depend on the match. -/
theorem Enlarges.link {inlet : Inlet} {outlet : Outlet} {wire : Wire}
    (growth : g.Enlarges matched h) (fresh : g.slots.size ≤ inlet.node)
    (source : ¬ h.Late matched outlet.node) (has : h.HasInlet inlet)
    (unread : ∀ other, ¬ h.Reads inlet other) (wired : h.wire outlet = .ok wire)
    (noCycle : ¬ h.Depends outlet.node inlet.node) :
    g.Enlarges matched (h.link inlet outlet) where
  links := growth.links.trans (keepsLinks_link has unread wired)
  acyclic := growth.acyclic.link has noCycle
  size := by
    rw [(sameNodes_link h inlet outlet).size]
    exact growth.size
  old := by
    intro id inside
    rw [node?_unread_link, node?_setSource_of_ne (Nat.ne_of_lt (Nat.lt_of_lt_of_le inside fresh))]
    exact growth.old id inside
  independent := by
    -- The late nodes of the old graph are closed under the new link too.
    have closed : (h.link inlet outlet).Downstream (h.Late matched) := by
      intro id target needs
      rcases needs_link has needs with old | ⟨_, rfl⟩
      · exact downstream_late h matched id target old
      · exact fun isLate => absurd isLate source
    intro id isFresh target member depends
    have early : ¬ h.Late matched id := by
      rintro ⟨other, otherMember, otherDepends⟩
      exact growth.independent id isFresh other otherMember otherDepends
    exact closed.not_late early depends (Late.of_mem member)
  declared := by
    rw [(sameNodes_link h inlet outlet).outputs]
    exact growth.declared

/-- Steps that change a new node only, and add no links. -/
theorem Enlarges.change {after : Graph} (growth : g.Enlarges matched h) (links : h.KeepsLinks after)
    (fewer : ∀ id source, after.Needs id source → h.Needs id source)
    (size : after.slots.size = h.slots.size) (outputs : after.outputs = h.outputs)
    (old : ∀ id, id < g.slots.size →
      (after.node? id).map Node.unread = (h.node? id).map Node.unread) :
    g.Enlarges matched after where
  links := growth.links.trans links
  acyclic := growth.acyclic.mono fewer
  size := size ▸ growth.size
  old id inside := (old id inside).trans (growth.old id inside)
  independent id fresh target member depends :=
    growth.independent id fresh target member (depends.mono fewer)
  declared := by
    rw [outputs]
    exact growth.declared

/-! ## Any number of steps -/

/-- Whatever is built next to a match leaves the old graph as it was. -/
theorem Grown.enlarges (grown : g.Grown matched h) (acyclic : g.Acyclic)
    (present : ∀ id ∈ matched, id < g.slots.size) : g.Enlarges matched h := by
  induction grown with
  | start => exact .start acyclic present
  | add _ done inductionHypothesis =>
      rcases addNode_eq_ok.mp done with ⟨_, _, rfl⟩
      exact inductionHypothesis.add
  | @connect before after inlet outlet _ fresh source done inductionHypothesis =>
      rcases connected_eq_ok (connect_eq_ok.mp done) with
        ⟨⟨wire, wired⟩, has, ⟨_, rfl⟩ | ⟨unread, noCycle, rfl⟩⟩
      · exact inductionHypothesis
      · refine inductionHypothesis.link fresh ?_ has unread wired noCycle
        rintro ⟨target, member, depends⟩
        rcases source with isFresh | early
        · exact inductionHypothesis.independent _ isFresh target member depends
        · exact early target member depends
  | @disconnect before after inlet previous _ fresh done inductionHypothesis =>
      rcases disconnect_eq_ok done with rfl | ⟨outlet, reads, rfl⟩
      · exact inductionHypothesis
      · have same := sameNodes_unlink before inlet outlet
        refine inductionHypothesis.change (keepsLinks_unlink reads)
          (fun _ _ needs => needs_unlink needs) same.size same.outputs ?_
        intro id inside
        refine (node?_unread_modifyWire _ _ _ ?_).trans ?_
        · exact fun _ => rfl
        · rw [node?_setSource_of_ne (Nat.ne_of_lt (Nat.lt_of_lt_of_le inside fresh))]
  | @changeNode before after id change _ fresh inputs outputs done inductionHypothesis =>
      rcases updateNode_eq_ok done with rfl
      have same := sameLinks_modifyNode before id inputs outputs
      refine inductionHypothesis.change same.keepsLinks
        (fun _ _ needs => same.needs.mp needs) (slots_size_modifyNode _ _ _) rfl ?_
      intro other inside
      rw [node?_modifyNode, if_neg (Nat.ne_of_lt (Nat.lt_of_lt_of_le inside fresh))]
  | @changeWire before after outlet change _ fresh readers done inductionHypothesis =>
      rcases updateWire_eq_ok done with rfl
      have same := sameLinks_modifyWire before outlet readers
      refine inductionHypothesis.change same.keepsLinks
        (fun _ _ needs => same.needs.mp needs) (slots_size_modifyNode _ _ _) rfl ?_
      intro other inside
      rw [modifyWire, node?_modifyNode,
        if_neg (Nat.ne_of_lt (Nat.lt_of_lt_of_le inside fresh))]

theorem Grown.extends (grown : g.Grown matched h) (linked : g.Linked) (acyclic : g.Acyclic)
    (present : ∀ id ∈ matched, id < g.slots.size) : g.Extends matched h where
  toEnlarges := grown.enlarges acyclic present
  linked := (grown.enlarges acyclic present).links.linked linked

/-! ## The old nodes afterwards -/

theorem Enlarges.exists_node (growth : g.Enlarges matched h) {id : Nat} {node : Node}
    (found : g.node? id = some node) :
    ∃ kept, h.node? id = some kept ∧ kept.unlinked = node.unlinked ∧ kept.inputs = node.inputs := by
  rcases exists_node_of_view (growth.old id (lt_size_of_node? found)) found with
    ⟨kept, present, same⟩
  exact ⟨kept, present, Node.unread_eq_iff.mp same⟩

theorem Enlarges.reads_old (growth : g.Enlarges matched h) {inlet : Inlet} {outlet : Outlet}
    (inside : inlet.node < g.slots.size) : h.Reads inlet outlet ↔ g.Reads inlet outlet := by
  have entry := growth.old inlet.node inside
  simp only [reads_iff]
  constructor
  · rintro ⟨kept, present, reads⟩
    rcases exists_node_of_view entry.symm present with ⟨node, found, same⟩
    exact ⟨node, found, (Node.unread_eq_iff.mp same).2 ▸ reads⟩
  · rintro ⟨node, found, reads⟩
    rcases growth.exists_node found with ⟨kept, present, _, inputs⟩
    exact ⟨kept, present, inputs ▸ reads⟩

theorem Enlarges.exists_wire (growth : g.Enlarges matched h) {outlet : Outlet} {wire : Wire}
    (wired : g.wire outlet = .ok wire) :
    ∃ kept, h.wire outlet = .ok kept ∧ kept.unlinked = wire.unlinked := by
  rcases wire_eq_ok.mp wired with ⟨node, found, entry⟩
  rcases growth.exists_node found with ⟨kept, present, unlinked, _⟩
  exact exists_wire_of_unlinked present unlinked entry

/-- An old node depends on the same nodes as before. -/
theorem Enlarges.depends_old (growth : g.Enlarges matched h) (faithful : g.Faithful)
    {id target : Nat} (inside : id < g.slots.size) : h.Depends id target ↔ g.Depends id target := by
  have needs : ∀ {id source : Nat}, id < g.slots.size →
      (h.Needs id source ↔ g.Needs id source) := by
    intro id source inside
    have reads : ∀ index outlet, h.Reads ⟨id, index⟩ outlet ↔ g.Reads ⟨id, index⟩ outlet :=
      fun _ _ => growth.reads_old inside
    simp only [needs_iff, reads]
  constructor
  · intro path
    have both : target < g.slots.size ∧ g.Depends id target := by
      induction path with
      | refl => exact ⟨inside, .refl⟩
      | tail _ step inductionHypothesis =>
          rcases inductionHypothesis with ⟨between, before⟩
          have old := (needs between).mp step
          rcases faithful.contains_of_needs old with ⟨node, found⟩
          exact ⟨lt_size_of_node? found, before.tail old⟩
    exact both.2
  · intro path
    exact path.mono fun _ _ step => (needs step.lt_size).mpr step

end

end Graph
end TensorCompiler
