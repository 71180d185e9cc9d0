import TensorCompiler.Proofs.Compilation.Stages
import TensorCompiler.Proofs.Rewriting.Convergence
import TensorCompiler.Proofs.Rewriting.Meaning

namespace TensorCompiler

/-!
# Runs of passes

On a valid graph a sound rule can be applied without fail to whatever region a
search offers, so a pass of sound rules either comes to an end or gives up because
of its limit.  In both cases it leaves a graph with the meaning of the one it was
given.

Pipelines and the compilation for a host on its own are made of such passes.
-/

variable {α : DataType → Type} {I : Interpretation α}

open Interpretation (Fits)

namespace Pass

variable {g : Graph} {pass : Pass} {rule : Rule} {region : Region}

/-! ## One application -/

/-- If a rule can be applied to a region whatever the journal says, a pass can apply it
and sweep. -/
theorem exists_applyAt_of_apply (pass : Pass) (replaceable : region.Replaceable g)
    (nonempty : region.nodes ≠ [])
    (applies : ∀ journal, ∃ after, rule.apply region ⟨g, journal⟩ = .ok () after)
    (journal : Journal) :
    ∃ removed after, pass.applyAt rule region ⟨g, journal⟩ = .ok removed after := by
  rcases List.exists_cons_of_ne_nil nonempty with ⟨first, rest, nodes⟩
  rcases replaceable.admitted first (by simp [nodes]) with ⟨node, found, _⟩
  have named : (do g.node (← entryAt region.nodes 0)) = Except.ok node := by
    rw [nodes]
    exact Graph.node_eq_ok.mpr found
  let noted := journal ++ [Event.applying pass.name rule.name node.name].toArray
  rcases applies noted with ⟨after, applied⟩
  refine ⟨after.graph.countOutside after.graph.reachable, ⟨after.graph.swept, after.journal⟩, ?_⟩
  simp only [applyAt, Stateful.bind_eq_ok, Work.edit_eq_ok, Work.note_eq_ok, Edit.ask_eq_ok]
  exact ⟨node, ⟨g, journal⟩, ⟨⟨named, rfl⟩, rfl⟩, (), ⟨g, noted⟩, ⟨rfl, rfl⟩, (), after, applied,
    Graph.removeUnreachable_eq after.graph, rfl⟩

/-- An application of a sound rule keeps the meaning of the graph. -/
theorem Rewrites.preserves {h : Graph} (rewrites : pass.Rewrites g h)
    (sound : ∀ rule ∈ pass.rules, rule.Sound I) (valid : g.Valid) : Preserves I g h := by
  cases rewrites with
  | @intro rule _ _ _ journal _ offers applied =>
      have keeps : rule.Sound I := sound rule offers.member
      have replaceable := Region.replaceable_of_isReplaceable valid.linked offers.checked
      rcases keeps.exists_apply valid offers.operator offers.anchored offers.recognized
        replaceable with ⟨_, applies⟩
      rcases applies journal with ⟨after, again, preserves⟩
      rcases EStateM.Result.ok.inj (again.symm.trans applied) with ⟨_, rfl⟩
      exact preserves.trans (.sweep preserves.valid)

/-- A sound rule can be applied to whatever region a search offers. -/
theorem exists_applyAt {id : Nat} {op : Operator} (offers : pass.Offers g rule region id op)
    (sound : ∀ rule ∈ pass.rules, rule.Sound I) (valid : g.Valid) (journal : Journal) :
    ∃ removed after, pass.applyAt rule region ⟨g, journal⟩ = .ok removed after ∧
      Preserves I g after.graph := by
  have keeps : rule.Sound I := sound rule offers.member
  have replaceable := Region.replaceable_of_isReplaceable valid.linked offers.checked
  rcases keeps.exists_apply valid offers.operator offers.anchored offers.recognized
    replaceable with ⟨nonempty, applies⟩
  rcases exists_applyAt_of_apply pass replaceable nonempty
    (fun journal => (applies journal).imp fun _ => And.left) journal with ⟨removed, after, applied⟩
  exact ⟨removed, after, applied, (rewrites_of_applyAt offers applied).preserves sound valid⟩

/-! ## Whole runs -/

/-- A run of a pass has come to an end or has reached its limit, and has kept
the meaning of the graph. -/
inductive Outcome (I : Interpretation α) (pass : Pass) (limit : Nat) (g : Graph) :
    EStateM.Result Failure Workbench PassStats → Prop
  | done {stats : PassStats} {after : Workbench} (preserves : Preserves I g after.graph) :
      Outcome I pass limit g (.ok stats after)
  | diverged {after : Workbench} (preserves : Preserves I g after.graph) :
      Outcome I pass limit g (.error (.refused (.passDiverged pass.name limit)) after)

theorem Outcome.after {h : Graph} {limit : Nat}
    {result : EStateM.Result Failure Workbench PassStats} (outcome : Outcome I pass limit h result)
    (before : Preserves I g h) : Outcome I pass limit g result := by
  cases outcome with
  | done preserves => exact .done (before.trans preserves)
  | diverged preserves => exact .diverged (before.trans preserves)

theorem outcome_finish {limit : Nat} {stats : PassStats} {journal : Journal} (valid : g.Valid) :
    Outcome I pass limit g (pass.finish stats ⟨g, journal⟩) := by
  have swept : Work.edit Graph.removeUnreachable ⟨g, journal⟩ =
      .ok (g.countOutside g.reachable) ⟨g.swept, journal⟩ := rfl
  unfold finish
  rw [Stateful.bind_of_ok swept]
  split
  · exact .done (.sweep valid)
  · exact .done (.sweep valid)

theorem outcome_runWithin (sound : ∀ rule ∈ pass.rules, rule.Sound I) {limit remaining : Nat}
    {stats : PassStats} {journal : Journal} (valid : g.Valid) :
    Outcome I pass limit g (pass.runWithin limit remaining stats ⟨g, journal⟩) := by
  induction remaining generalizing g stats journal with
  | zero =>
      unfold runWithin
      rw [Stateful.bind_of_ok (nextMatch_eq pass g journal)]
      cases found : (pass.search g).2 with
      | none => exact outcome_finish valid
      | some offered => exact .diverged (.refl valid)
  | succ remaining inductionHypothesis =>
      unfold runWithin
      rw [Stateful.bind_of_ok (nextMatch_eq pass g journal)]
      cases found : (pass.search g).2 with
      | none => exact outcome_finish valid
      | some offered =>
          rcases offered with ⟨rule, region⟩
          rcases tryNodes_eq_some found with ⟨id, op, offers⟩
          rcases exists_applyAt offers sound valid _ with
            ⟨removed, after, applied, preserves⟩
          refine Outcome.after ?_ preserves
          change Outcome I pass limit after.graph ((pass.applyAt rule region >>= _) _)
          rw [Stateful.bind_of_ok applied]
          exact inductionHypothesis preserves.valid

theorem outcome_run (sound : ∀ rule ∈ pass.rules, rule.Sound I) (valid : g.Valid) (limit : Nat)
    (journal : Journal) : Outcome I pass limit g (pass.run limit ⟨g, journal⟩) :=
  outcome_runWithin sound valid

end Pass

/-! ## Pipelines -/

namespace Pipeline

variable {g : Graph} {journal : Journal} {after : Workbench}

theorem preserves_run {pipeline : Pipeline} {stats : PipelineStats}
    (sound : ∀ pass ∈ pipeline.passes, ∀ rule ∈ pass.rules, rule.Sound I) (valid : g.Valid)
    (done : pipeline.run ⟨g, journal⟩ = .ok stats after) : Preserves I g after.graph := by
  apply holds_of_run (Preserves I g ·) _ _ (.refl valid) done
  · intro pass member h k earlier rewrites
    exact earlier.trans (rewrites.preserves (sound pass member) earlier.valid)
  · intro h earlier
    exact earlier.trans (.sweep earlier.valid)

end Pipeline

/-! ## Compiling -/

theorem preserves_compile {g : Graph} {journal : Journal} {target : Target}
    {options : CompileOptions} {compiled : Compiled} {after : Workbench}
    (sound : ∀ pass ∈ target.passes, ∀ rule ∈ pass.rules, rule.Sound I) (valid : g.Valid)
    (done : compile target options ⟨g, journal⟩ = .ok compiled after) :
    Preserves I g after.graph := by
  rw [compile_eq] at done
  split at done
  · cases done
  · rcases Stateful.bind_eq_ok.mp done with ⟨stats, between, ran, laidOut⟩
    have swept : Preserves I g g.swept := .sweep valid
    rw [graph_layOut laidOut]
    exact swept.trans (Pipeline.preserves_run sound swept.valid ran)

/-! ## Any number of runs -/

/-- The rules that keep values: all but the one that moves a convolution to the
accelerator, where it is computed with less precision. -/
def Rule.valueKeeping : List Rule :=
  [lowerRelu, foldTwoTransposes, foldIdentityTranspose, foldTwoReshapes, foldIdentityReshape,
    foldQuantizeDequantize, fuseClamp, foldUploadDownload]

theorem Rule.sound_of_mem_valueKeeping {rule : Rule} (member : rule ∈ valueKeeping) :
    rule.Sound I := by
  simp only [valueKeeping, List.mem_cons, List.not_mem_nil, or_false] at member
  rcases member with rfl | rfl | rfl | rfl | rfl | rfl | rfl | rfl
  · exact sound_lowerRelu
  · exact sound_foldTwoTransposes
  · exact sound_foldIdentityTranspose
  · exact sound_foldTwoReshapes
  · exact sound_foldIdentityReshape
  · exact sound_foldQuantizeDequantize
  · exact sound_fuseClamp
  · exact sound_foldUploadDownload

/-- A pass has only rules that keep values. -/
def Pass.KeepsValues (pass : Pass) : Prop :=
  ∀ rule ∈ pass.rules, rule ∈ Rule.valueKeeping

theorem Target.keepsValues_cpu : ∀ pass ∈ Target.cpu.passes, pass.KeepsValues := by
  simp [Target.cpu, Target.legalize, Target.foldRules, Target.fuse, Pass.KeepsValues,
    Rule.valueKeeping]

/-- Graphs that arise from a given one by passes that keep values.  A pass that
reaches its limit leaves a graph behind as well. -/
inductive Graph.Rewritten (g : Graph) : Graph → Prop
  | start : Rewritten g g
  | run {h : Graph} {pass : Pass} {limit : Nat} {journal : Journal} {stats : PassStats}
      {after : Workbench} (earlier : Rewritten g h) (keeps : pass.KeepsValues)
      (done : pass.run limit ⟨h, journal⟩ = .ok stats after) : Rewritten g after.graph
  | failed {h : Graph} {pass : Pass} {limit : Nat} {journal : Journal} {failure : Failure}
      {after : Workbench} (earlier : Rewritten g h) (keeps : pass.KeepsValues)
      (done : pass.run limit ⟨h, journal⟩ = .error failure after) : Rewritten g after.graph
  | compile {h : Graph} {target : Target} {options : CompileOptions} {journal : Journal}
      {compiled : Compiled} {after : Workbench} (earlier : Rewritten g h)
      (keeps : ∀ pass ∈ target.passes, pass.KeepsValues)
      (done : compile target options ⟨h, journal⟩ = .ok compiled after) : Rewritten g after.graph

theorem Graph.Rewritten.preserves {g h : Graph} (rewritten : g.Rewritten h) (valid : g.Valid) :
    Preserves I g h := by
  induction rewritten with
  | start => exact .refl valid
  | @run h pass limit journal _ _ _ keeps done inductionHypothesis =>
      have outcome := Pass.outcome_run (I := I)
        (fun rule member => Rule.sound_of_mem_valueKeeping (keeps rule member))
        inductionHypothesis.valid limit journal
      rw [done] at outcome
      rcases outcome with ⟨preserves⟩
      exact inductionHypothesis.trans preserves
  | @failed h pass limit journal _ _ _ keeps done inductionHypothesis =>
      have outcome := Pass.outcome_run (I := I)
        (fun rule member => Rule.sound_of_mem_valueKeeping (keeps rule member))
        inductionHypothesis.valid limit journal
      rw [done] at outcome
      cases outcome with
      | diverged preserves => exact inductionHypothesis.trans preserves
  | compile _ keeps done inductionHypothesis =>
      refine inductionHypothesis.trans (preserves_compile ?_ inductionHypothesis.valid done)
      intro pass member rule listed
      exact Rule.sound_of_mem_valueKeeping (keeps pass member rule listed)

/-- Rewriting keeps the meaning of a graph.  Take a graph that was made with the
typed constructors or read from a script, and any graph that arises from it by
passes that keep values, as in compiling for a host on its own.  For every way to
interpret the operators, and whatever the inputs and constants are, both graphs
declare the same outputs in the same order, and the values of all of them are
defined and equal. -/
theorem Graph.Rewritten.value_output_eq {g h : Graph} (I : Interpretation α)
    (made : g.Made ∨ ∃ bytes, Graph.ofScript bytes = .ok g) (rewritten : g.Rewritten h) :
    h.outputs = g.outputs ∧
      ∀ assign : Nat → Tensor α, Fits assign g → ∀ id ∈ g.outputs,
        ∃ value, I.value assign g id = some value ∧ I.value assign h id = some value := by
  have valid : g.Valid := by
    rcases made with made | ⟨bytes, read⟩
    · exact made.valid
    · exact (Graph.made_of_ofScript read).valid
  have preserves : Preserves I g h := rewritten.preserves valid
  refine ⟨preserves.outputs, ?_⟩
  intro assign fits id declared
  exact preserves.value_eq valid fits declared

/-- Compiling the small graph for a host removes both transposes and lowers the
rectifier.  The declared output keeps its place and its value. -/
theorem Graph.compile_rectified_value :
    let image : Tensor fun _ => Nat := ⟨.f32, [2, 3], [1, 2, 3, 4, 5, 6], rfl⟩
    Fits (fun _ => image) rectified ∧
      ∃ compiled after, compile .cpu {} ⟨rectified, #[]⟩ = .ok compiled after ∧
        after.graph.nodeIds = [0, 4, 5] ∧ after.graph.outputs = rectified.outputs ∧
        ∃ value, Interpretation.ofUnchanging.value (fun _ => image) after.graph 4 = some value ∧
          value.data = [1, 2, 3, 4, 5, 6] := by
  intro image
  have typed : ∀ id < rectified.slots.size, (rectified.node? id).all fun node =>
      decide (node.op.inputCount = 0 → node.signature.results = [image.type]) := by decide +kernel
  have fits : Fits (fun _ => image) rectified := by
    intro id node found none
    have here := typed id (lt_size_of_node? found)
    rw [found] at here
    exact of_decide_eq_true here none
  have ids : (match compile .cpu {} ⟨rectified, #[]⟩ with
      | .ok _ after => after.graph.nodeIds
      | .error _ _ => []) = [0, 4, 5] := by decide +kernel
  refine ⟨fits, ?_⟩
  cases done : compile .cpu {} ⟨rectified, #[]⟩ with
  | error failure after =>
      rw [done] at ids
      cases ids
  | ok compiled after =>
      rw [done] at ids
      rcases Rewritten.value_output_eq Interpretation.ofUnchanging (Or.inl made_rectified)
        (.compile .start Target.keepsValues_cpu done) with ⟨outputs, values⟩
      rcases values (fun _ => image) fits 4 (by decide) with ⟨value, before, now⟩
      have known : (Interpretation.ofUnchanging.value (fun _ => image) rectified 4).map
          Tensor.data = some [1, 2, 3, 4, 5, 6] := by decide +kernel
      rw [before] at known
      exact ⟨compiled, after, rfl, ids, outputs, value, now, Option.some.inj known⟩

end TensorCompiler
