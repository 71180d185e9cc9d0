import TensorCompiler.Proofs.Graph.Editing

namespace TensorCompiler
namespace Graph

/-!
# Sweeping

Sweeping keeps the nodes that some declared output depends on.  These nodes
read only each other, so what is left keeps its links; a survivor keeps
everything but the readers that are gone.  Nothing becomes unreachable by it, so
another sweep changes nothing.
-/

section

variable {g : Graph} {keep : NodeSet} {inlet : Inlet} {outlet : Outlet}

theorem node?_restrict (g : Graph) (keep : NodeSet) (id : Nat) :
    (g.restrict keep).node? id =
      if keep.contains id then
        (g.node? id).map fun node => { node with outputs := node.outputs.map (keepReaders keep) }
      else none := by
  rw [node?, node?, restrict, Array.getElem?_mapIdx]
  cases g.slots[id]? with
  | none => simp
  | some slot => split <;> simp_all

theorem reads_restrict :
    (g.restrict keep).Reads inlet outlet ↔
      keep.contains inlet.node = true ∧ g.Reads inlet outlet := by
  simp only [reads_iff, node?_restrict]
  cases keep.contains inlet.node <;> simp

theorem wire_restrict {wire : Wire} :
    (g.restrict keep).wire outlet = .ok wire ↔
      keep.contains outlet.node = true ∧
        ∃ old, g.wire outlet = .ok old ∧ keepReaders keep old = wire := by
  simp only [wire_eq_ok, node?_restrict]
  cases keep.contains outlet.node with
  | false => simp
  | true =>
      simp only [if_true, true_and, Option.map_eq_some_iff]
      constructor
      · rintro ⟨_, ⟨node, found, rfl⟩, entry⟩
        rw [List.getElem?_map] at entry
        rcases Option.map_eq_some_iff.mp entry with ⟨old, oldEntry, same⟩
        exact ⟨old, ⟨node, found, oldEntry⟩, same⟩
      · rintro ⟨old, ⟨node, found, entry⟩, rfl⟩
        refine ⟨_, ⟨node, found, rfl⟩, ?_⟩
        rw [List.getElem?_map, entry]
        rfl

/-- A set of nodes that read only each other keeps its links. -/
theorem keepsLinks_restrict (closed : ∀ id source, keep.contains id = true → g.Needs id source →
    keep.contains source = true) : g.KeepsLinks (g.restrict keep) := by
  refine ⟨fun faithful => ⟨?_, ?_, ?_⟩, fun _ inlet orphan => ?_⟩
  · intro inlet outlet reads
    rcases reads_restrict.mp reads with ⟨kept, before⟩
    rcases faithful.sources inlet outlet before with ⟨wire, wired⟩
    exact ⟨_, wire_restrict.mpr ⟨closed _ _ kept before.needs, wire, wired, rfl⟩⟩
  · rintro outlet inlet ⟨_, wired, member⟩
    rcases wire_restrict.mp wired with ⟨_, old, oldWired, rfl⟩
    rcases List.mem_filter.mp member with ⟨listed, kept⟩
    exact reads_restrict.mpr ⟨kept, faithful.readers outlet inlet ⟨old, oldWired, listed⟩⟩
  · intro outlet wire wired
    rcases wire_restrict.mp wired with ⟨_, old, oldWired, rfl⟩
    exact (faithful.increasing outlet old oldWired).filter _
  · rcases orphan with ⟨outlet, reads, unlisted⟩
    rcases reads_restrict.mp reads with ⟨kept, before⟩
    refine ⟨outlet, before, ?_⟩
    rintro ⟨wire, wired, member⟩
    apply unlisted
    refine ⟨_, wire_restrict.mpr ⟨closed _ _ kept before.needs, wire, wired, rfl⟩, ?_⟩
    exact List.mem_filter.mpr ⟨member, kept⟩

end

section

variable {g : Graph}

/-- The graph after a sweep. -/
def swept (g : Graph) : Graph :=
  g.restrict g.reachable

theorem removeUnreachable_eq (g : Graph) :
    removeUnreachable g = .ok (g.countOutside g.reachable) g.swept :=
  rfl

theorem reachable_closed {id source : Nat} (kept : g.reachable.contains id = true)
    (needs : g.Needs id source) : g.reachable.contains source = true := by
  rcases contains_reachable.mp kept with ⟨root, declared, path⟩
  exact contains_reachable.mpr ⟨root, declared, path.tail needs⟩

theorem keepsLinks_swept (g : Graph) : g.KeepsLinks g.swept :=
  keepsLinks_restrict fun _ _ kept needs => reachable_closed kept needs

theorem Linked.swept (linked : g.Linked) : g.swept.Linked :=
  g.keepsLinks_swept.linked linked

theorem needs_swept {id source : Nat} (needs : g.swept.Needs id source) : g.Needs id source := by
  rcases needs_iff.mp needs with ⟨index, port, reads⟩
  exact (reads_restrict.mp reads).2.needs

theorem Acyclic.swept (acyclic : g.Acyclic) : g.swept.Acyclic :=
  acyclic.mono fun _ _ needs => needs_swept needs

/-- A survivor keeps everything but the readers that are gone. -/
theorem node?_swept {id : Nat} {node : Node} :
    g.swept.node? id = some node ↔
      g.reachable.contains id = true ∧ ∃ old, g.node? id = some old ∧
        node = { old with outputs := old.outputs.map (keepReaders g.reachable) } := by
  rw [swept, node?_restrict]
  cases g.reachable.contains id with
  | false => simp
  | true => simp [eq_comm (a := node)]

theorem outputs_swept (g : Graph) : g.swept.outputs = g.outputs := by
  apply List.filter_eq_self.mpr
  intro id declared
  exact contains_reachable.mpr ⟨id, declared, .refl⟩

end

section

variable {g : Graph} {keep : NodeSet}

/-! ## Sweeping twice -/

/-- Nothing changes if all nodes, readers and declared outputs are kept. -/
theorem restrict_eq_self (nodes : ∀ id, g.contains id = true → keep.contains id = true)
    (readers : ∀ outlet inlet, g.Serves outlet inlet → keep.contains inlet.node = true)
    (outputs : ∀ id ∈ g.outputs, keep.contains id = true) : g.restrict keep = g := by
  have slots : (g.restrict keep).slots = g.slots := by
    apply Array.ext_getElem?
    intro id
    rw [restrict, Array.getElem?_mapIdx]
    cases entry : g.slots[id]? with
    | none => rfl
    | some slot =>
        cases slot with
        | none => simp
        | some node =>
            have found : g.node? id = some node := by rw [node?, entry]; rfl
            have wires : node.outputs.map (keepReaders keep) = node.outputs := by
              conv_rhs => rw [← List.map_id node.outputs]
              apply List.map_congr_left
              intro wire member
              obtain ⟨index, wired⟩ := List.mem_iff_getElem?.mp member
              have all : wire.readers.filter (fun reader => keep.contains reader.node) =
                  wire.readers := by
                apply List.filter_eq_self.mpr
                intro inlet listed
                exact readers ⟨id, index⟩ inlet ⟨wire, wire_eq_ok.mpr ⟨node, found, wired⟩, listed⟩
              rw [keepReaders, all, id_eq]
            simp [nodes id (contains_iff.mpr ⟨node, found⟩), wires]
  have none : g.countOutside keep = 0 := by
    apply List.countP_eq_zero.mpr
    intro id member
    simp [nodes id (List.mem_filter.mp member).2]
  change Graph.mk (g.restrict keep).slots _ (g.live - g.countOutside keep) =
    Graph.mk g.slots g.outputs g.live
  rw [slots, none, List.filter_eq_self.mpr outputs, Nat.sub_zero]

theorem depends_swept {root id : Nat} (kept : g.reachable.contains root = true)
    (path : g.Depends root id) : g.swept.Depends root id := by
  obtain ⟨top, declared, above⟩ := contains_reachable.mp kept
  induction path with
  | refl => exact .refl
  | @tail reader source path needs inductionHypothesis =>
      obtain ⟨index, port, reads⟩ := needs_iff.mp needs
      have readerKept : g.reachable.contains reader = true :=
        contains_reachable.mpr ⟨top, declared, above.trans path⟩
      exact inductionHypothesis.tail (reads_restrict.mpr ⟨readerKept, reads⟩).needs

/-- A sweep does not make anything unreachable. -/
theorem contains_reachable_swept {id : Nat} (kept : g.reachable.contains id = true) :
    g.swept.reachable.contains id = true := by
  obtain ⟨root, declared, path⟩ := contains_reachable.mp kept
  have rootKept : g.reachable.contains root = true :=
    contains_reachable.mpr ⟨root, declared, .refl⟩
  exact contains_reachable.mpr
    ⟨root, List.mem_filter.mpr ⟨declared, rootKept⟩, depends_swept rootKept path⟩

/-- A graph that has been swept stays as it is. -/
theorem swept_swept (g : Graph) : g.swept.swept = g.swept := by
  apply restrict_eq_self
  · intro id present
    obtain ⟨node, found⟩ := contains_iff.mp present
    exact contains_reachable_swept (node?_swept.mp found).1
  · rintro outlet inlet ⟨wire, wired, listed⟩
    obtain ⟨-, old, -, rfl⟩ := wire_restrict.mp wired
    exact contains_reachable_swept (List.mem_filter.mp listed).2
  · intro id declared
    exact contains_reachable_swept (List.mem_filter.mp declared).2

theorem countOutside_swept (g : Graph) : g.swept.countOutside g.swept.reachable = 0 := by
  apply List.countP_eq_zero.mpr
  intro id member
  obtain ⟨node, found⟩ := contains_iff.mp (List.mem_filter.mp member).2
  simp [contains_reachable_swept (node?_swept.mp found).1]

end

end Graph
end TensorCompiler
