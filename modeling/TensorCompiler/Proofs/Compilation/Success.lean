import TensorCompiler.Proofs.Rewriting.Conservation
import TensorCompiler.Proofs.Rewriting.HostPasses
import TensorCompiler.Proofs.Schedule.Execution

namespace TensorCompiler

/-!
# Compiling for the host succeeds

A script describes a graph that the host can execute, since no statement names an
operator of the accelerator.  The passes of the host end and leave such a graph, the
check of the target passes, every value finds room in the memories of the host, and the
placement passes its check.  So compiling a script for the host can only fail for want of
applications or of memory: the limit on applications has to allow for as many as there
are nodes, and the values have to fit into an address space side by side.
-/

/-! ## Scripts -/

namespace Graph

variable {g h : Graph}

def OnHost (g : Graph) : Prop :=
  ∀ id node, g.node? id = some node → node.OnHost

theorem onHost_empty : Graph.empty.OnHost := by
  intro id node found
  cases found

theorem Adds.onHost {op : Operator} {operands : List Outlet} (adds : g.Adds op operands h)
    (hosted : Target.needsAccelerator op = false) (onHost : g.OnHost) : h.OnHost := by
  rcases adds with ⟨name, types, results, -, -, appended⟩
  have new : (connectedNode op name operands results).OnHost := by
    refine ⟨hosted, List.forall_mem_map.mpr ?_⟩
    exact fun type _ => homeMemory_ne_accelerator hosted
  intro id now found
  have inside := lt_size_of_node? found
  rw [appended.size] at inside
  rcases Nat.lt_succ_iff_lt_or_eq.mp inside with earlier | rfl
  · have same := appended.old id earlier
    rw [found, Option.map_some] at same
    rcases Option.map_eq_some_iff.mp same.symm with ⟨before, beforeFound, view⟩
    rw [← Node.onHost_unlinked, ← (Node.unread_eq_iff.mp view).1, Node.onHost_unlinked]
    exact onHost id before beforeFound
  · have same := appended.new
    rw [found, Option.map_some] at same
    have view := (Node.unread_eq_iff.mp (Option.some.inj same)).1
    rw [← Node.onHost_unlinked, view, Node.onHost_unlinked]
    exact new

theorem OnHost.updateNode {id : Nat} {change : Node → Node} (onHost : g.OnHost)
    (done : updateNode id change g = .ok () h) (operator : ∀ node, (change node).op = node.op)
    (outputs : ∀ node, (change node).outputs = node.outputs) : h.OnHost := by
  rcases updateNode_eq_ok done with rfl
  intro other now found
  rw [node?_modifyNode] at found
  split at found
  · rcases Option.map_eq_some_iff.mp found with ⟨node, nodeFound, rfl⟩
    rcases onHost id node nodeFound with ⟨nodeOperator, memories⟩
    exact ⟨by rw [operator]; exact nodeOperator, by rw [outputs]; exact memories⟩
  · exact onHost other now found

end Graph

namespace Script

open TensorCompiler.Graph

variable {g h : Graph}

/-- No statement is carried out by a node for the accelerator. -/
theorem needsAccelerator_operator (statement : Statement) :
    Target.needsAccelerator statement.operator = false := by
  cases statement <;> rfl

theorem kept_onHost : Kept fun g => g.Made ∧ g.OnHost where
  build := by
    rintro g h name statement value? ⟨made, onHost⟩ _ done
    rcases adds_of_build made.intact done with ⟨adds, -⟩
    exact ⟨made_of_build made done,
      adds.onHost (needsAccelerator_operator statement) onHost⟩
  setName := by
    rintro g h id name ⟨made, onHost⟩ done
    exact ⟨made.setName done, onHost.updateNode done (fun _ => rfl) fun _ => rfl⟩
  updateMarks := by
    rintro g h id change ⟨made, onHost⟩ done
    exact ⟨made.updateMarks done, onHost.updateNode done (fun _ => rfl) fun _ => rfl⟩

end Script

/-! ## Sizes -/

namespace Graph

variable {g : Graph}

/-- The wires at all outlets of a graph, node by node. -/
def wires (g : Graph) : List Wire :=
  g.nodeIds.flatMap fun id => (g.node? id).elim [] Node.outputs

/-- If all values of a graph have a size, then each of them does, and their sum is what
the nodes take together. -/
theorem sizes_of_wires {rule : SizeRule} {sizes : List Nat}
    (sized : g.wires.mapM (fun wire => rule.bytes wire.type) = .ok sizes) :
    (∀ id node, g.node? id = some node → ∀ wire ∈ node.outputs,
      rule.bytes wire.type = .ok (rule.size wire.type)) ∧
    g.total (Node.footprint rule) = sizes.sum := by
  constructor
  · intro id node found wire member
    have listed : wire ∈ g.wires := by
      refine List.mem_flatMap.mpr ⟨id, mem_nodeIds.mpr (contains_iff.mpr ⟨node, found⟩), ?_⟩
      rwa [found, Option.elim_some]
    rcases Checked.exists_mem_mapM sized listed with ⟨size, -, bytes⟩
    rw [SizeRule.size_of_bytes bytes]
    exact bytes
  · have same : g.wires.map (fun wire => rule.size wire.type) = sizes := by
      rw [← List.forall₂_eq_eq_eq, List.forall₂_map_left_iff]
      exact (Checked.mapM_eq_ok.mp sized).imp fun _ _ bytes => SizeRule.size_of_bytes bytes
    rw [← same, wires, List.map_flatMap, List.flatMap_def, List.sum_flatten, List.map_map,
      total_eq_sum]
    congr 1
    apply List.map_congr_left
    intro id _
    rw [loadAt, Function.comp_apply]
    cases g.node? id with
    | none => rfl
    | some node => rfl

/-- Some nodes, each taken once, amount to no more than all of them. -/
theorem sum_loadAt_le {ids : List Nat} {load : Node → Nat} (distinct : ids.Nodup)
    (present : ∀ id ∈ ids, g.contains id = true) :
    (ids.map (g.loadAt load)).sum ≤ g.total load := by
  rw [← List.sum_toFinset _ distinct]
  apply Finset.sum_le_sum_of_subset
  intro id member
  rcases contains_iff.mp (present id (List.mem_toFinset.mp member)) with ⟨node, found⟩
  exact Finset.mem_range.mpr (lt_size_of_node? found)

theorem IsHosted.isHoused {rule : SizeRule} (hosted : g.IsHosted rule) :
    g.IsHoused rule (· ≠ .accelerator) := by
  intro outlet wire wired
  rcases wire_eq_ok.mp wired with ⟨node, found, entry⟩
  have member := List.mem_of_getElem? entry
  have nodeHosted := hosted outlet.node node found
  exact ⟨nodeHosted.memories wire member, nodeHosted.sizes wire member⟩

end Graph

/-! ## Compiling -/

theorem exists_layOut {target : Target} {options : CompileOptions} {g : Graph}
    {schedule : Schedule} {journal later : Journal} (stats : PipelineStats)
    (checked : target.check g = .ok ())
    (scheduled : g.schedule target.allocators journal = .ok schedule later)
    (verified : schedule.verify g = .ok ()) (unpacked : options.packBudget = none) :
    ∃ compiled after, layOut target options stats ⟨g, journal⟩ = .ok compiled after ∧
      compiled.schedule = schedule := by
  have settled : ∀ bench, ∃ compiled after,
      settle target options stats g schedule bench = .ok compiled after ∧
        compiled.schedule = schedule := by
    intro bench
    unfold settle packWithin
    rw [unpacked]
    exact ⟨_, _, rfl, rfl⟩
  have checkLifted : (liftM (target.check g) : Work Unit) ⟨g, journal⟩ = .ok () ⟨g, journal⟩ :=
    Stateful.lift_eq_ok.mpr ⟨checked, rfl⟩
  have recorded : Work.recorded (g.schedule target.allocators) ⟨g, journal⟩ =
      .ok schedule ⟨g, later⟩ := Work.recorded_eq_ok.mpr ⟨scheduled, rfl⟩
  have verifyLifted : (liftM (schedule.verify g) : Work Unit) ⟨g, later⟩ = .ok () ⟨g, later⟩ :=
    Stateful.lift_eq_ok.mpr ⟨verified, rfl⟩
  unfold layOut
  rw [Stateful.bind_of_ok (Stateful.get_eq_ok.mpr ⟨rfl, rfl⟩)]
  dsimp only
  rw [Stateful.bind_of_ok checkLifted, Stateful.bind_of_ok recorded]
  split
  · rw [Stateful.bind_of_ok verifyLifted]
    exact settled _
  · exact settled _

namespace Target

variable {g : Graph} {rule : SizeRule}

theorem supports_cpu {node : Node} (onHost : node.OnHost) : cpu.supports node = true := by
  simp [cpu, onHost.operator]

theorem check_cpu (hosted : g.IsHosted rule) : cpu.check g = .ok () := by
  have present : ∀ id ∈ g.postorder, ∃ node, g.node? id = some node ∧
      (cpu.supports node = false ↔ False) := by
    intro id member
    rcases Graph.contains_iff.mp (Graph.contains_of_mem_postorder member) with ⟨node, found⟩
    refine ⟨node, found, iff_of_false ?_ not_false⟩
    rw [supports_cpu (hosted id node found).toOnHost]
    exact Bool.noConfusion
  rcases checkNodes_cases present with ⟨passes, -⟩ | ⟨_, _, _, _, -, -, impossible, -⟩
  · exact passes
  · exact impossible.elim

/-- The memories of the host have room for values that fit into an address space side by
side. -/
theorem exists_schedule_cpu {root : Nat} (valid : g.Valid)
    (hosted : g.IsHosted (.aligned hostAlignment)) (declared : root ∈ g.outputs)
    (fits : g.total (Node.footprint (.aligned hostAlignment)) ≤ Word.largest)
    (journal : Journal) :
    ∃ schedule after, g.schedule cpu.allocators journal = .ok schedule after := by
  have present : g.contains root = true :=
    Graph.contains_of_op? (valid.declared root declared)
  have rooms : ∀ kind, kind ≠ .accelerator → ∃ owner,
      cpu.allocators.get kind = some (.new owner none (.aligned hostAlignment)) := by
    intro kind notAccelerator
    refine ⟨kind, ?_⟩
    rw [cpu, PerKind.get_tabulate, if_neg notAccelerator]
    rfl
  exact Graph.exists_schedule valid.linked valid.acyclic declared present Schedule.reached_cpu rooms
    hosted.isHoused
    (Nat.le_trans (Graph.sum_loadAt_le g.postorder_nodup
      fun _ => Graph.contains_of_mem_postorder) fits) journal

/-- Compiling a script for the host.  If the values of its graph have sizes that add up to
less than an address space, and each pass may apply as many rules as the graph has nodes,
then compiling succeeds, whatever the rounds and whether or not the placement is checked.
The declared outputs stay as they are, the schedule runs every node once and after what
it reads, and the host can execute all of them. -/
theorem compile_cpu_succeeds {bytes : List UInt8} {g : Graph} {sizes : List Nat}
    {options : CompileOptions} (read : Graph.ofScript bytes = .ok g)
    (sized : g.wires.mapM (fun wire => (SizeRule.aligned hostAlignment).bytes wire.type) =
      .ok sizes)
    (fits : sizes.sum < 2 ^ 64) (unpacked : options.packBudget = none)
    (enough : g.size ≤ options.maxApplied) (journal : Journal) :
    ∃ compiled after, compile cpu options ⟨g, journal⟩ = .ok compiled after ∧
      after.graph.outputs = g.outputs ∧ after.graph.Arranged compiled.schedule.sequence ∧
      (∀ id, after.graph.contains id = true → id ∈ compiled.schedule.sequence) ∧
      ∀ id ∈ compiled.schedule.sequence, ∃ node, after.graph.node? id = some node ∧
        cpu.supports node = true := by
  rcases Script.kept_onHost.ofScript ⟨.empty, Graph.onHost_empty⟩ read with
    ⟨⟨made, onHost⟩, nonempty⟩
  rcases Graph.sizes_of_wires sized with ⟨each, total⟩
  have sustains := made.intact.sustains_swept
  have hosted : g.swept.IsHosted (.aligned hostAlignment) :=
    Graph.isHosted_swept fun id node found => ⟨onHost id node found, each id node found⟩
  have smaller : g.swept.size ≤ options.maxApplied := by
    rw [← Graph.total_one sustains.intact]
    rw [← Graph.total_one made.intact] at enough
    exact Nat.le_trans (Graph.total_swept_le fun _ _ _ => rfl) enough
  rcases exists_run_cpu sustains.intact (sustains.valid made.valid) hosted smaller
    options.maxRounds (sweptJournal g journal) with ⟨stats, ⟨h, between⟩, ran, hosting⟩
  have valid : h.Valid := hosting.valid (sustains.valid made.valid)
  have outputs : h.outputs = g.outputs := hosting.outputs.trans sustains.outputs
  have room : h.total (Node.footprint (.aligned hostAlignment)) ≤ Word.largest := by
    have swept : g.swept.total (Node.footprint (.aligned hostAlignment)) ≤ sizes.sum :=
      total ▸ Graph.total_swept_le (Graph.isBlind_footprint _)
    have kept : h.total (Node.footprint (.aligned hostAlignment)) ≤ g.swept.total _ :=
      hosting.bytes
    have largest : Word.largest + 1 = 2 ^ 64 := rfl
    omega
  rcases List.exists_mem_of_ne_nil _ nonempty with ⟨root, declared⟩
  rcases exists_schedule_cpu valid hosting.hosted (outputs ▸ declared) room between with
    ⟨schedule, later, scheduled⟩
  have sound := Graph.schedule_sound Schedule.reached_cpu scheduled
  rcases exists_layOut stats (check_cpu hosting.hosted) scheduled (sound.verify_eq_ok h) unpacked
    with ⟨compiled, after, laidOut, rfl⟩
  rcases Graph.schedule_eq_ok scheduled with ⟨_, order, -⟩
  have graph : after.graph = h := graph_layOut laidOut
  have swept := Pipeline.swept_of_run g.swept_swept ran
  refine ⟨compiled, after, ?_, ?_⟩
  · rw [compile_eq, if_neg (by simp [nonempty])]
    exact Stateful.bind_eq_ok.mpr ⟨stats, _, ran, laidOut⟩
  rw [graph, order]
  refine ⟨outputs, Graph.arranged_postorder valid.linked.faithful valid.acyclic, ?_, ?_⟩
  · exact fun id present => hosting.intact.mem_postorder swept present
  · intro id member
    rcases Graph.contains_iff.mp (Graph.contains_of_mem_postorder member) with ⟨node, found⟩
    exact ⟨node, found, supports_cpu (hosting.hosted id node found).toOnHost⟩

/-- A matrix turned over twice, which a pass undoes. -/
def turnedTwice : List UInt8 :=
  "x input f32 2,3\ny transpose x 1,0\nz transpose y 1,0\nout output z".toList.map
    fun character => character.val.toUInt8

/-- The script makes four nodes, three of which give a value of six numbers. -/
theorem measured_turnedTwice :
    (do
      let g ← Graph.ofScript turnedTwice
      let sizes ← g.wires.mapM fun wire => (SizeRule.aligned hostAlignment).bytes wire.type
      return (g.size, sizes)) = (.ok (4, [24, 24, 24]) : Checked (Nat × List Nat)) := by
  decide +kernel

theorem compile_cpu_succeeds_turnedTwice :
    ∃ g, Graph.ofScript turnedTwice = .ok g ∧ ∃ compiled after,
      compile cpu {} ⟨g, {}⟩ = .ok compiled after ∧ after.graph.outputs = g.outputs ∧
      after.graph.Arranged compiled.schedule.sequence := by
  have measured := measured_turnedTwice
  simp only [Checked.bind_eq_ok, Checked.pure_eq_ok, Prod.mk.injEq] at measured
  rcases measured with ⟨g, read, sizes, sized, size, rfl⟩
  have enough : g.size ≤ ({} : CompileOptions).maxApplied := by
    rw [size]
    decide
  rcases compile_cpu_succeeds read sized (by decide) rfl enough {} with
    ⟨compiled, after, compiles, outputs, arranged, -⟩
  exact ⟨g, read, compiled, after, compiles, outputs, arranged⟩

end Target
end TensorCompiler
