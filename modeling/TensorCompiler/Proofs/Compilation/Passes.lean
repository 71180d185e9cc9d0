import TensorCompiler.Proofs.Compilation.Quiet
import TensorCompiler.Proofs.Rewriting.Searching
import TensorCompiler.Target

namespace TensorCompiler

/-!
# Quiet passes

Applying a rule is quiet if building with it is.  The rules of all targets are
quiet, hence their passes and pipelines are.
-/

open Stateful (Quiet)

/-! ## Applying a rule -/

namespace Work

variable {α : Type}

theorem quiet_edit {change : Edit α} (quiet : Quiet change) : Quiet (edit change) := by
  intro bench failure after failed
  unfold edit at failed
  cases ended : change bench.graph with
  | ok value changed =>
      rw [ended] at failed
      cases failed
  | error cause changed =>
      rw [ended] at failed
      rcases EStateM.Result.error.inj failed with ⟨rfl, rfl⟩
      exact quiet bench.graph cause changed ended

theorem quiet_note (events : List Event) : Quiet (note events) :=
  Stateful.quiet_modify _

end Work

namespace Rule

/-- Building with a rule is quiet. -/
def IsQuiet (rule : Rule) : Prop :=
  ∀ found, Quiet (rule.build found)

theorem quiet_checkTypes (name : String) (pairs : List (Outlet × Outlet)) :
    Quiet (checkTypes name pairs) := by
  induction pairs with
  | nil => exact Stateful.quiet_pure ()
  | cons pair rest inductionHypothesis =>
      refine (Edit.quiet_ask (by simp)).bind fun _ => (Edit.quiet_ask (by simp)).bind fun _ =>
        Stateful.quiet_ite inductionHypothesis (Stateful.quiet_refuse (by simp))

theorem quiet_moveReaders (pairs : List (Outlet × Outlet)) : Quiet (moveReaders pairs) := by
  induction pairs with
  | nil => exact Stateful.quiet_pure ()
  | cons pair rest inductionHypothesis =>
      exact (Graph.quiet_replaceUses pair.1 pair.2).bind fun _ => inductionHypothesis

theorem quiet_install (name : String) (region : Region) (replacements : List Outlet) :
    Quiet (install name region replacements) := by
  refine Stateful.quiet_ite ?_ (Stateful.quiet_refuse (by simp))
  exact (quiet_checkTypes name _).bind fun _ => quiet_moveReaders _

theorem IsQuiet.apply {rule : Rule} (quiet : rule.IsQuiet) (region : Region) :
    Quiet (rule.apply region) := by
  have capture : Quiet (capture region) :=
    (Edit.quiet_ask (by simp)).bind fun _ => Stateful.quiet_pure _
  exact (Work.quiet_edit capture).bind fun found => (Work.quiet_edit (quiet found)).bind fun _ =>
    (Work.quiet_note _).bind fun _ => Work.quiet_edit (quiet_install _ _ _)

/-! ## The rules of the targets -/

section

variable (found : Match) (index : Nat)

theorem quiet_source : Quiet (liftM (found.source index) : Edit Outlet) :=
  Stateful.quiet_lift (by simp [Match.source])

theorem quiet_matchedNode : Quiet (liftM (found.node index) : Edit Nat) :=
  Stateful.quiet_lift (by simp [Match.node])

/-- Several rules hand over what the region reads first. -/
theorem quiet_firstSource : Quiet (do return [← found.source 0] : Edit (List Outlet)) :=
  (quiet_source found 0).bind fun _ => Stateful.quiet_pure _

end

theorem quiet_foldTwoTransposes : foldTwoTransposes.IsQuiet := by
  intro found
  refine Stateful.quiet_get.bind fun _ => (quiet_matchedNode found 0).bind fun _ =>
    (quiet_matchedNode found 1).bind fun _ => ?_
  split
  · refine (Stateful.quiet_lift (by simp [composeAxes])).bind fun _ =>
      (quiet_source found 0).bind fun _ => ?_
    exact (Graph.quiet_transpose _ _).bind fun _ => Stateful.quiet_pure _
  · exact Stateful.quiet_refuse (by simp)

theorem quiet_foldTwoReshapes : foldTwoReshapes.IsQuiet := by
  intro found
  refine Stateful.quiet_get.bind fun _ => (quiet_matchedNode found 1).bind fun _ => ?_
  split
  · exact (quiet_source found 0).bind fun _ =>
      (Graph.quiet_reshape _ _).bind fun _ => Stateful.quiet_pure _
  · exact Stateful.quiet_refuse (by simp)

theorem quiet_lowerRelu : lowerRelu.IsQuiet := fun found =>
  (quiet_source found 0).bind fun _ => (Graph.quiet_clamp _ _).bind fun _ => Stateful.quiet_pure _

theorem quiet_withFurtherClamp (found : Match) (op : Operator) (range : ClampRange) :
    Quiet (withFurtherClamp found op range) := by
  unfold withFurtherClamp
  split
  · exact (quiet_source found 0).bind fun _ => (quiet_source found 1).bind fun _ =>
      (quiet_source found 2).bind fun _ => Graph.quiet_conv2d _ _ _ _
  · exact (quiet_source found 0).bind fun _ => (quiet_source found 1).bind fun _ =>
      Graph.quiet_matMul _ _ _
  · exact Stateful.quiet_refuse (by simp)

theorem quiet_fuseClamp : fuseClamp.IsQuiet := by
  intro found
  refine Stateful.quiet_get.bind fun g => (quiet_matchedNode found 1).bind fun _ => ?_
  split
  · refine (quiet_matchedNode found 0).bind fun _ => ?_
    refine (Stateful.quiet_lift (by simp)).bind fun _ => ?_
    exact (quiet_withFurtherClamp found _ _).bind fun _ =>
      (Graph.quiet_updateMarks _ _).bind fun _ => Stateful.quiet_pure _
  · exact Stateful.quiet_refuse (by simp)

theorem quiet_lowerConv2dToAccel (quantization : Quantization) :
    (lowerConv2dToAccel quantization).IsQuiet := by
  intro found
  refine Stateful.quiet_get.bind fun g => (quiet_matchedNode found 0).bind fun _ =>
    (Stateful.quiet_lift (by simp)).bind fun _ => (quiet_source found 0).bind fun _ =>
    (quiet_source found 1).bind fun _ => (quiet_source found 2).bind fun _ => ?_
  split
  · exact (Stateful.quiet_lift (by simp)).bind fun _ => (Graph.quiet_constant _ _).bind fun _ =>
      (Graph.quiet_quantize _ _ _).bind fun _ => (Graph.quiet_accelUpload _).bind fun _ =>
      (Graph.quiet_accelConv2d _ _ _ _).bind fun _ => (Graph.quiet_accelDownload _).bind fun _ =>
      (Graph.quiet_dequantize _ _).bind fun _ => Stateful.quiet_pure _
  · exact Stateful.quiet_refuse (by simp)

end Rule

/-! ## Passes and pipelines -/

/-- Every rule of a pass is quiet. -/
def Pass.IsQuiet (pass : Pass) : Prop :=
  ∀ rule ∈ pass.rules, rule.IsQuiet

namespace Pass

variable {pass : Pass}

theorem quiet_applyAt {rule : Rule} (quiet : rule.IsQuiet) (region : Region) :
    Quiet (pass.applyAt rule region) := by
  have looked : Quiet (Edit.ask fun g => do g.node (← entryAt region.nodes 0)) :=
    Edit.quiet_ask (by simp)
  exact (Work.quiet_edit looked).bind fun _ => (Work.quiet_note _).bind fun _ =>
    (quiet.apply region).bind fun _ => Work.quiet_edit Graph.quiet_removeUnreachable

theorem quiet_finish (stats : PassStats) : Quiet (pass.finish stats) := by
  refine (Work.quiet_edit Graph.quiet_removeUnreachable).bind fun _ => Stateful.quiet_ite ?_ ?_
  · exact (Work.quiet_note _).bind fun _ => Stateful.quiet_pure _
  · exact Stateful.quiet_pure _

theorem IsQuiet.runWithin (quiet : pass.IsQuiet) (limit remaining : Nat) (stats : PassStats) :
    Quiet (pass.runWithin limit remaining stats) := by
  induction remaining generalizing stats with
  | zero =>
      rintro ⟨g, journal⟩
      unfold Pass.runWithin Stateful.FailsOnly
      rw [Stateful.bind_of_ok (nextMatch_eq pass g journal)]
      cases (pass.search g).2 with
      | none => exact quiet_finish stats _
      | some offered =>
          have diverged : Quiet (refuse (.passDiverged pass.name limit) : Work PassStats) :=
            Stateful.quiet_refuse (by simp)
          exact diverged _
  | succ remaining inductionHypothesis =>
      rintro ⟨g, journal⟩
      unfold Pass.runWithin Stateful.FailsOnly
      rw [Stateful.bind_of_ok (nextMatch_eq pass g journal)]
      cases found : (pass.search g).2 with
      | none => exact quiet_finish stats _
      | some offered =>
          rcases tryNodes_eq_some found with ⟨_, _, offers⟩
          exact ((quiet_applyAt (quiet _ offers.member) offered.2).bind fun _ =>
            inductionHypothesis _) _

end Pass

namespace Pipeline

theorem quiet_runRound {passes : List Pass} (quiet : ∀ pass ∈ passes, pass.IsQuiet)
    (maxApplied : Nat) : Quiet (runRound maxApplied passes) := by
  induction passes with
  | nil => exact Stateful.quiet_pure _
  | cons pass rest inductionHypothesis =>
      rcases List.forall_mem_cons.mp quiet with ⟨firstQuiet, restQuiet⟩
      exact (firstQuiet.runWithin _ _ _).bind fun _ =>
        (inductionHypothesis restQuiet).bind fun _ => Stateful.quiet_pure _

variable {pipeline : Pipeline}

theorem quiet_runRounds (quiet : ∀ pass ∈ pipeline.passes, pass.IsQuiet) (remaining : Nat)
    (stats : PipelineStats) : Quiet (pipeline.runRounds remaining stats) := by
  induction remaining generalizing stats with
  | zero => exact Stateful.quiet_pure _
  | succ remaining inductionHypothesis =>
      refine (quiet_runRound quiet _).bind fun _ => Stateful.quiet_ite ?_ ?_
      · exact Stateful.quiet_pure _
      · exact inductionHypothesis _

theorem quiet_run (quiet : ∀ pass ∈ pipeline.passes, pass.IsQuiet) : Quiet pipeline.run := by
  refine (quiet_runRounds quiet _ _).bind fun _ => Stateful.quiet_ite ?_ ?_
  · exact (Work.quiet_note _).bind fun _ => Stateful.quiet_pure _
  · exact (Work.quiet_note _).bind fun _ => Stateful.quiet_pure _

end Pipeline

/-! ## The targets -/

/-- Every pass of a target is quiet. -/
def Target.IsQuiet (target : Target) : Prop :=
  ∀ pass ∈ target.passes, pass.IsQuiet

namespace Target

theorem quiet_legalize : legalize.IsQuiet := by
  simp [Pass.IsQuiet, legalize, Rule.quiet_lowerRelu]

theorem quiet_fuse : fuse.IsQuiet := by
  simp [Pass.IsQuiet, fuse, Rule.quiet_fuseClamp]

theorem quiet_foldRules : ∀ rule ∈ foldRules, rule.IsQuiet := by
  simp only [foldRules, List.forall_mem_cons]
  exact ⟨Rule.quiet_foldTwoTransposes, Rule.quiet_firstSource, Rule.quiet_foldTwoReshapes,
    Rule.quiet_firstSource, Rule.quiet_firstSource, List.forall_mem_nil _⟩

theorem quiet_cpu : cpu.IsQuiet := by
  simp only [Target.IsQuiet, cpu, List.forall_mem_cons]
  exact ⟨quiet_legalize, quiet_foldRules, quiet_fuse, List.forall_mem_nil _⟩

theorem quiet_accelerated (scratchpad : Nat) (quantization : Quantization) :
    (accelerated scratchpad quantization).IsQuiet := by
  have fold : ∀ rule ∈ foldRules ++ [Rule.foldUploadDownload], rule.IsQuiet := by
    simp only [List.forall_mem_append, List.forall_mem_cons]
    exact ⟨quiet_foldRules, Rule.quiet_firstSource, List.forall_mem_nil _⟩
  have lower : ∀ rule ∈ [Rule.lowerConv2dToAccel quantization], rule.IsQuiet := by
    simp [Rule.quiet_lowerConv2dToAccel]
  simp only [Target.IsQuiet, accelerated, List.forall_mem_cons]
  exact ⟨quiet_legalize, fold, quiet_fuse, lower, fold, List.forall_mem_nil _⟩

end Target

end TensorCompiler
