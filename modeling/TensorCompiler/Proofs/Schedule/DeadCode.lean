import TensorCompiler.Proofs.Construction.Sessions
import TensorCompiler.Proofs.Graph.Survivors
import TensorCompiler.Schedule.Scheduling

namespace TensorCompiler

/-!
# Dead code and schedules

A node that no declared output depends on takes no part in a schedule, yet the wires that it
reads list it among their readers.  A schedule looks at the readers of a wire twice: it counts
them, to know when a buffer is free again, and it looks for declared outputs among them, to
know whether the buffer is pinned.  Both times it only regards readers that are scheduled
themselves.  So the scheduler sees the same in a graph and in any part of it that holds the
nodes to run, and takes the same steps, up to the same failure where there is one.
-/

namespace Graph

variable {g : Graph} {keep : NodeSet}

/-! ## What is kept reads the same -/

theorem node_restrict {id : Nat} (kept : keep.contains id = true) :
    (g.restrict keep).node id = (g.node id).map fun node =>
      { node with outputs := node.outputs.map (keepReaders keep) } := by
  rw [node, node?_restrict, if_pos kept, node]
  cases g.node? id with
  | none => rfl
  | some node => rfl

/-- A wire that is kept, or the refusal to hand out one that is not there. -/
theorem wire_restrict_of_kept {outlet : Outlet} (kept : keep.contains outlet.node = true) :
    (g.restrict keep).wire outlet = (g.wire outlet).map (keepReaders keep) := by
  rw [wire, node_restrict kept, wire]
  cases g.node outlet.node with
  | error failure => rfl
  | ok node =>
      simp only [Except.map, bind, Except.bind, List.getElem?_map]
      cases node.outputs[outlet.index]? with
      | none => rfl
      | some wire => rfl

end Graph

namespace Scheduling

variable {g : Graph} {keep : NodeSet} {scheduled : List Nat}

/-! ## What the scheduler looks at -/

theorem scheduledReaders_keepReaders (kept : ∀ id ∈ scheduled, keep.contains id = true)
    (wire : Wire) :
    scheduledReaders scheduled (Graph.keepReaders keep wire) = scheduledReaders scheduled wire := by
  rw [scheduledReaders, scheduledReaders, Graph.keepReaders, List.filter_filter]
  apply List.filter_congr
  intro reader _
  apply Bool.and_eq_left_iff_imp.mpr
  intro runs
  exact kept reader.node (List.contains_iff_mem.mp runs)

theorem isPinned_restrict (kept : ∀ id ∈ scheduled, keep.contains id = true) (wire : Wire) :
    isPinned (g.restrict keep) scheduled (Graph.keepReaders keep wire) =
      isPinned g scheduled wire := by
  rw [isPinned, isPinned, scheduledReaders_keepReaders kept]
  have same : ∀ reader ∈ scheduledReaders scheduled wire,
      (g.restrict keep).op? reader.node = g.op? reader.node := by
    intro reader isReader
    have runs := List.contains_iff_mem.mp (List.mem_filter.mp isReader).2
    rw [Graph.op?_restrict, if_pos (kept reader.node runs)]
  congr 1
  apply Bool.eq_iff_iff.mpr
  simp only [List.any_eq_true, decide_eq_true_eq]
  constructor
  · rintro ⟨reader, isReader, declared⟩
    exact ⟨reader, isReader, same reader isReader ▸ declared⟩
  · rintro ⟨reader, isReader, declared⟩
    exact ⟨reader, isReader, (same reader isReader).trans declared⟩

/-! ## The run -/

theorem reserve_restrict (kept : ∀ id ∈ scheduled, keep.contains id = true) (step final : Nat)
    {outlet : Outlet} (here : keep.contains outlet.node = true) :
    reserve (g.restrict keep) scheduled step final outlet =
      reserve g scheduled step final outlet := by
  rw [reserve, reserve, Graph.wire_restrict_of_kept here, Graph.node_restrict here]
  simp only [Stateful.bind_lift_map, isPinned_restrict kept, scheduledReaders_keepReaders kept]
  rfl

theorem runNode_restrict (kept : ∀ id ∈ scheduled, keep.contains id = true) (final step : Nat)
    {id : Nat} (here : keep.contains id = true) :
    runNode (g.restrict keep) scheduled final step id = runNode g scheduled final step id := by
  have reserves : ∀ node : Node,
      (outletsOf id node).forM (reserve (g.restrict keep) scheduled step final) =
        (outletsOf id node).forM (reserve g scheduled step final) := by
    intro node
    apply Stateful.forM_congr
    intro outlet own
    rcases List.mem_map.mp own with ⟨index, _, rfl⟩
    exact reserve_restrict kept step final here
  rw [runNode, runNode, Graph.node_restrict here, Stateful.bind_lift_map]
  simp only [reserves]
  simp only [outletsOf, List.length_map]
  rfl

/-- A run through nodes that are kept.  The results agree, and so do the failures and what the
run has done by then. -/
theorem runNodes_restrict (kept : ∀ id ∈ scheduled, keep.contains id = true) (final step : Nat)
    {ids : List Nat} (here : ∀ id ∈ ids, keep.contains id = true) :
    runNodes (g.restrict keep) scheduled final step ids =
      runNodes g scheduled final step ids := by
  induction ids generalizing step with
  | nil => rfl
  | cons id rest inductionHypothesis =>
      rcases List.forall_mem_cons.mp here with ⟨first, others⟩
      rw [runNodes, runNodes, runNode_restrict kept final step first,
        inductionHypothesis (step + 1) others]

end Scheduling

/-- Dead code has no influence on a schedule, nor on the events recorded with it. -/
theorem Graph.Intact.schedule_swept {g : Graph} (intact : g.Intact) (allocators : Allocators) :
    g.swept.schedule allocators = g.schedule allocators := by
  have kept : ∀ id ∈ g.postorder, g.reachable.contains id = true := fun id member =>
    (mem_postorder_iff intact.toFaithful intact.acyclic
      fun _ => intact.contains_of_output).mp member
  funext journal
  rw [schedule, schedule, g.outputs_swept, intact.postorder_swept]
  simp only [Graph.swept, Scheduling.runNodes_restrict kept _ _ kept]

/-- Scheduling and dead code.  Any requests whatever are sent to a graph that starts out empty,
and some of them may fail.  Then the graph and what a sweep leaves of it have the same schedule
with any allocators: the same sequence, buffers and amounts of memory, or the same failure, and
the same events on the way to either. -/
theorem Operation.schedule_of_sweep (operations : List Operation) (allocators : Allocators)
    (journal : Journal) :
    let g := performAll operations .empty
    ∃ removed after, Graph.removeUnreachable g = .ok removed after ∧
      after.schedule allocators journal = g.schedule allocators journal := by
  intro g
  have intact : g.Intact := intact_performAll operations
  refine ⟨_, g.swept, g.removeUnreachable_eq, ?_⟩
  rw [intact.schedule_swept]

end TensorCompiler
