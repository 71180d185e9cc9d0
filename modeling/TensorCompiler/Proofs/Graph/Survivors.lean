import TensorCompiler.Proofs.Graph.DepthFirst

namespace TensorCompiler

/-!
# What a sweep leaves

A sweep looks for the nodes that some declared output depends on, and then goes through the
nodes, the readers of each wire, the declared outputs and the count of nodes one by one.  All
of these agree afterwards: the survivors are those nodes, they read and are read as before as
far as survivors are concerned, and the count has lost what was removed.

The search for the nodes to keep and the walk in dependency order start at the declared
outputs and go from a node to its producers.  Both see nothing but survivors, and of these
nothing that the sweep changes, so after the sweep they find what they found before.
-/

namespace NodeSet

@[simp] theorem size_insert (set : NodeSet) (id : Nat) :
    (set.insert id).flags.size = set.flags.size := by
  unfold insert
  split <;> simp

theorem others_eq_nil {set : NodeSet}
    (inside : ∀ id, set.contains id = true → id < set.flags.size) : set.others = [] := by
  apply List.eq_nil_iff_forall_not_mem.mpr
  intro id member
  have below : id < set.flags.size := inside id (by simp [contains, member])
  exact Nat.not_le_of_lt below (set.beyond id member)

theorem contains_eq_flag {set : NodeSet} {id : Nat} (inside : id < set.flags.size) :
    set.contains id = set.flags[id] := by
  have absent : id ∉ set.others := fun member => Nat.not_le_of_lt inside (set.beyond id member)
  simp [contains, Array.getD_eq_getD_getElem?, Array.getElem?_eq_getElem inside, absent]

/-- A set that lies below its bound is known by its bound and its positions. -/
theorem eq_of_contains {first second : NodeSet} (size : first.flags.size = second.flags.size)
    (inside : ∀ id, first.contains id = true → id < first.flags.size)
    (same : ∀ id, first.contains id = second.contains id) : first = second := by
  have noneFirst : first.others = [] := others_eq_nil inside
  have noneSecond : second.others = [] := by
    apply others_eq_nil
    intro id member
    rw [← same] at member
    exact size ▸ inside id member
  have flags : first.flags = second.flags := by
    apply Array.ext size
    intro id insideFirst insideSecond
    rw [← contains_eq_flag, ← contains_eq_flag, same]
  cases first
  cases second
  simp_all

end NodeSet

namespace Graph

variable {g : Graph} {id : Nat}

/-! ## The survivors -/

theorem size_explore (g : Graph) (fuel : Nat) (todo : List Nat) (seen : NodeSet) :
    (g.explore fuel todo seen).flags.size = seen.flags.size := by
  fun_induction explore g fuel todo seen with
  | case1 => rfl
  | case2 => rfl
  | case3 fuel id todo seen old inductionHypothesis => exact inductionHypothesis
  | case4 fuel id todo seen new inductionHypothesis =>
      rw [inductionHypothesis, NodeSet.size_insert]

theorem size_reachable (g : Graph) : g.reachable.flags.size = g.slots.size := by
  rw [reachable, closure, size_explore, NodeSet.empty, Array.size_replicate]

theorem Intact.contains_of_reachable (intact : g.Intact)
    (kept : g.reachable.contains id = true) : g.contains id = true :=
  contains_of_mem_postorder (mem_postorder_of_reachable intact.toFaithful intact.acyclic
    (fun _ => intact.contains_of_output) kept)

/-- A sweep neither makes anything unreachable nor reachable. -/
theorem Intact.reachable_swept (intact : g.Intact) : g.swept.reachable = g.reachable := by
  symm
  apply NodeSet.eq_of_contains
  · rw [size_reachable, size_reachable]
    exact Array.size_mapIdx.symm
  · intro id kept
    rw [size_reachable]
    exact lt_size_of_contains (intact.contains_of_reachable kept)
  · intro id
    apply Bool.eq_iff_iff.mpr
    constructor
    · exact contains_reachable_swept
    · intro kept
      rcases contains_reachable.mp kept with ⟨root, isOutput, path⟩
      refine contains_reachable.mpr ⟨root, (List.mem_filter.mp isOutput).1, ?_⟩
      exact path.mono fun _ _ needs => needs_swept needs

theorem Intact.contains_swept (intact : g.Intact) (id : Nat) :
    g.swept.contains id = g.reachable.contains id := by
  apply Bool.eq_iff_iff.mpr
  constructor
  · intro survives
    rcases contains_iff.mp survives with ⟨node, found⟩
    exact (node?_swept.mp found).1
  · intro kept
    rcases contains_iff.mp (intact.contains_of_reachable kept) with ⟨node, found⟩
    exact contains_iff.mpr ⟨_, node?_swept.mpr ⟨kept, node, found, rfl⟩⟩

theorem Intact.contains_swept_iff (intact : g.Intact) :
    g.swept.contains id = true ↔ ∃ root ∈ g.outputs, g.Depends root id := by
  rw [intact.contains_swept, contains_reachable]

/-- The count loses exactly the nodes that are removed. -/
theorem Intact.size_eq (intact : g.Intact) :
    g.size = g.swept.size + g.countOutside g.reachable := by
  have bound : g.countOutside g.reachable ≤ g.size := by
    rw [intact.counted]
    exact List.countP_le_length
  exact (Nat.sub_add_cancel bound).symm

/-! ## The dependency order -/

theorem producerIds_swept (kept : g.reachable.contains id = true) :
    g.swept.producerIds id = g.producerIds id := by
  rw [producerIds, producerIds, swept, node?_restrict, if_pos kept]
  cases g.node? id with
  | none => rfl
  | some node => rfl

/-- The recursion through the survivors does not notice the sweep. -/
theorem DepthFirst.swept {ids done after : List Nat} (search : g.DepthFirst ids done after)
    (kept : ∀ id ∈ ids, g.reachable.contains id = true) :
    g.swept.DepthFirst ids done after := by
  induction search with
  | nil => exact .nil
  | skip old _ inductionHypothesis =>
      exact .skip old (inductionHypothesis (List.forall_mem_cons.mp kept).2)
  | visit new _ _ producersHypothesis restHypothesis =>
      rcases List.forall_mem_cons.mp kept with ⟨here, others⟩
      have producers := producersHypothesis fun _ needs => reachable_closed here needs
      rw [← producerIds_swept here] at producers
      exact .visit new producers (restHypothesis others)

theorem Intact.postorder_swept (intact : g.Intact) : g.swept.postorder = g.postorder := by
  have declared : ∀ id ∈ g.outputs, g.contains id = true := fun _ => intact.contains_of_output
  have kept : ∀ id ∈ g.outputs, g.reachable.contains id = true := fun id isOutput =>
    contains_reachable.mpr ⟨id, isOutput, .refl⟩
  have search := (depthFirst_postorder intact.toFaithful intact.acyclic declared).swept kept
  rw [← g.outputs_swept] at search
  exact (search.eq_postorder intact.swept.toFaithful intact.swept.acyclic
    fun _ => intact.swept.contains_of_output).symm

end Graph

namespace Operation

/-- Sweeping.  Any requests whatever are sent to a graph that starts out empty, and some of
them may fail.  Then a sweep leaves exactly the nodes that a declared output depends on.  It
returns the number of nodes that it removes, by which the count goes down.  A survivor keeps
everything, but of the readers of its results those that survive too.  The declared outputs,
the nodes that they depend on and the dependency order stay the same, and another sweep
removes nothing and changes nothing. -/
theorem sweep_of_session (operations : List Operation) :
    let g := performAll operations .empty
    ∃ removed after, Graph.removeUnreachable g = .ok removed after ∧
      (∀ id, after.contains id = true ↔ ∃ root ∈ g.outputs, g.Depends root id) ∧
      (removed = g.nodeIds.countP (fun id => !after.contains id) ∧
        g.size = after.size + removed) ∧
      (∀ id node, after.node? id = some node → ∃ old, g.node? id = some old ∧
        node = { old with outputs := old.outputs.map fun wire =>
          { wire with readers := wire.readers.filter fun reader =>
            after.contains reader.node } }) ∧
      (after.outputs = g.outputs ∧ after.reachable = g.reachable ∧
        after.postorder = g.postorder) ∧
      Graph.removeUnreachable after = .ok 0 after := by
  intro g
  have intact : g.Intact := intact_performAll operations
  refine ⟨_, g.swept, g.removeUnreachable_eq, fun _ => intact.contains_swept_iff,
    ⟨?_, intact.size_eq⟩, ?_, ⟨g.outputs_swept, intact.reachable_swept, intact.postorder_swept⟩, ?_⟩
  · simp only [intact.contains_swept]
    rfl
  · intro id node found
    rcases Graph.node?_swept.mp found with ⟨_, old, foundOld, rfl⟩
    refine ⟨old, foundOld, ?_⟩
    simp only [intact.contains_swept]
    rfl
  · rw [Graph.removeUnreachable_eq, Graph.countOutside_swept, Graph.swept_swept]

end Operation
end TensorCompiler
