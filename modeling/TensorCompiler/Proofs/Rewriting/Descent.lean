import Mathlib.Algebra.Order.BigOperators.Group.List
import Mathlib.Algebra.Order.Group.Nat
import TensorCompiler.Proofs.Rewriting.Convergence

namespace TensorCompiler

/-!
# Runs that end

A pass ends within a limit if it can apply whatever it finds, and each application
lowers a rank that is no larger than the limit to begin with.  A pipeline ends if each
of its passes does, whatever the number of rounds.  A round that is not the last one
has applied a rule, so a pipeline that applies fewer rules than it may run rounds has
converged.
-/

namespace Pass

variable {pass : Pass}

theorem exists_runWithin_of_nothing {g : Graph} (nothing : (pass.search g).2 = none)
    (limit remaining : Nat) (stats : PassStats) (journal : Journal) :
    ∃ result after, pass.runWithin limit remaining stats ⟨g, journal⟩ = .ok result after := by
  rcases pass.finish_eq stats g (journal ++ (pass.search g).1.toArray) with ⟨after, finished, -⟩
  rw [runWithin_of_none nothing]
  exact ⟨_, after, finished⟩

/-- A pass ends without fail if it can apply what it finds, and each application lowers
a rank that the number of applications left to it allows for. -/
theorem exists_runWithin_of_ranks (ranks : Nat → Graph → Prop)
    (applies : ∀ rank g rule region id op journal, ranks rank g →
      pass.Offers g rule region id op →
      ∃ removed after, pass.applyAt rule region ⟨g, journal⟩ = .ok removed after)
    (step : ∀ rank g h, ranks rank g → pass.Rewrites g h → ∃ lower < rank, ranks lower h)
    {rank : Nat} {g : Graph} {limit remaining : Nat} {stats : PassStats} {journal : Journal}
    (start : ranks rank g) (enough : rank ≤ remaining) :
    ∃ result after, pass.runWithin limit remaining stats ⟨g, journal⟩ = .ok result after := by
  induction remaining generalizing rank g stats journal with
  | zero =>
      cases found : (pass.search g).2 with
      | none => exact exists_runWithin_of_nothing found _ _ _ _
      | some offered =>
          rcases tryNodes_eq_some found with ⟨id, op, offers⟩
          rcases applies rank g _ _ id op journal start offers with ⟨removed, after, applied⟩
          rcases step rank g _ start (rewrites_of_applyAt offers applied) with ⟨lower, less, -⟩
          omega
  | succ remaining inductionHypothesis =>
      cases found : (pass.search g).2 with
      | none => exact exists_runWithin_of_nothing found _ _ _ _
      | some offered =>
          rcases offered with ⟨rule, region⟩
          rcases tryNodes_eq_some found with ⟨id, op, offers⟩
          rcases applies rank g rule region id op (journal ++ (pass.search g).1.toArray) start
            offers with ⟨removed, between, applied⟩
          rcases step rank g _ start (rewrites_of_applyAt offers applied) with ⟨lower, less, next⟩
          rcases @inductionHypothesis lower between.graph (stats.afterApplying rule.name removed)
            between.journal next (by omega) with ⟨result, after, done⟩
          refine ⟨result, after, ?_⟩
          rw [runWithin_succ_of_some found, Stateful.bind_of_ok applied]
          exact done

/-- The rank can be a measure of the graph. -/
theorem exists_runWithin_of_descent (holds : Graph → Prop) (measure : Graph → Nat)
    (applies : ∀ g rule region id op journal, holds g → pass.Offers g rule region id op →
      ∃ removed after, pass.applyAt rule region ⟨g, journal⟩ = .ok removed after)
    (step : ∀ g h, holds g → pass.Rewrites g h → holds h ∧ measure h < measure g)
    {g : Graph} {limit remaining : Nat} {stats : PassStats} {journal : Journal} (start : holds g)
    (enough : measure g ≤ remaining) :
    ∃ result after, pass.runWithin limit remaining stats ⟨g, journal⟩ = .ok result after := by
  apply exists_runWithin_of_ranks (fun rank g => holds g ∧ measure g = rank) _ _ ⟨start, rfl⟩ enough
  · rintro _ g rule region id op journal ⟨here, -⟩ offers
    exact applies g rule region id op journal here offers
  · rintro _ g h ⟨here, rfl⟩ rewrites
    rcases step g h here rewrites with ⟨next, less⟩
    exact ⟨measure h, less, next, rfl⟩

end Pass

/-! ## Pipelines -/

namespace Pipeline

variable {g : Graph} {journal : Journal}

theorem exists_runRound_of_passes (holds : Graph → Prop) {maxApplied : Nat} {passes : List Pass}
    (each : ∀ pass ∈ passes, ∀ g journal, holds g → ∃ stats after,
      pass.run maxApplied ⟨g, journal⟩ = .ok stats after ∧ holds after.graph) (start : holds g) :
    ∃ round after, runRound maxApplied passes ⟨g, journal⟩ = .ok round after ∧
      holds after.graph := by
  induction passes generalizing g journal with
  | nil => exact ⟨[], ⟨g, journal⟩, rfl, start⟩
  | cons pass rest inductionHypothesis =>
      rcases List.forall_mem_cons.mp each with ⟨first, others⟩
      rcases first g journal start with ⟨stats, between, ran, next⟩
      obtain ⟨round, after, rest, last⟩ : ∃ round after,
          runRound maxApplied rest between = .ok round after ∧ holds after.graph :=
        inductionHypothesis others next
      refine ⟨stats :: round, after, ?_, last⟩
      simp only [runRound, Stateful.bind_eq_ok, Stateful.pure_eq_ok]
      exact ⟨stats, between, ran, round, after, rest, rfl, rfl⟩

theorem exists_runRounds_of_passes (holds : Graph → Prop) {pipeline : Pipeline} {remaining : Nat}
    {stats : PipelineStats}
    (each : ∀ pass ∈ pipeline.passes, ∀ g journal, holds g → ∃ stats after,
      pass.run pipeline.maxApplied ⟨g, journal⟩ = .ok stats after ∧ holds after.graph)
    (start : holds g) :
    ∃ result after, pipeline.runRounds remaining stats ⟨g, journal⟩ = .ok result after ∧
      holds after.graph := by
  induction remaining generalizing g journal stats with
  | zero => exact ⟨stats, ⟨g, journal⟩, rfl, start⟩
  | succ remaining inductionHypothesis =>
      rcases exists_runRound_of_passes holds each start with ⟨round, between, ran, next⟩
      unfold runRounds
      rw [Stateful.bind_of_ok ran]
      split
      · exact ⟨_, between, rfl, next⟩
      · exact inductionHypothesis next

/-- A pipeline ends without fail if each of its passes does. -/
theorem exists_run_of_passes (holds : Graph → Prop) {pipeline : Pipeline}
    (each : ∀ pass ∈ pipeline.passes, ∀ g journal, holds g → ∃ stats after,
      pass.run pipeline.maxApplied ⟨g, journal⟩ = .ok stats after ∧ holds after.graph)
    (start : holds g) :
    ∃ stats after, pipeline.run ⟨g, journal⟩ = .ok stats after ∧ holds after.graph := by
  rcases exists_runRounds_of_passes holds each start with ⟨stats, between, ran, last⟩
  unfold run
  rw [Stateful.bind_of_ok ran]
  split
  · exact ⟨stats, _, rfl, last⟩
  · exact ⟨stats, _, rfl, last⟩

/-- A round that is not the last has applied a rule. -/
theorem sum_pos_of_not_converged {stats : PipelineStats} {round : List PassStats}
    (unfinished : (afterRound stats round).converged ≠ true) :
    0 < (round.map PassStats.applied).sum := by
  apply Nat.pos_of_ne_zero
  intro none
  apply unfinished
  simp only [afterRound, List.all_eq_true, beq_iff_eq]
  intro pass member
  exact List.sum_eq_zero_iff.mp none _ (List.mem_map_of_mem member)

theorem converged_or_le_of_runRounds {pipeline : Pipeline} {remaining : Nat}
    {before stats : PipelineStats} {bench after : Workbench}
    (lengths : before.applied.length = pipeline.passes.length)
    (done : pipeline.runRounds remaining before bench = .ok stats after) :
    stats.converged = true ∨ before.total + remaining ≤ stats.total := by
  induction remaining generalizing bench before with
  | zero =>
      rw [runRounds, Stateful.pure_eq_ok] at done
      exact Or.inr (Nat.le_of_eq (congrArg PipelineStats.total done.1))
  | succ remaining inductionHypothesis =>
      simp only [runRounds, Stateful.bind_eq_ok] at done
      rcases done with ⟨round, between, first, rest⟩
      have same : round.length = before.applied.length :=
        (length_runRound first).trans lengths.symm
      split at rest
      · next converged => exact Or.inl ((Stateful.pure_eq_ok.mp rest).1 ▸ converged)
      · next unfinished =>
          have applied := sum_pos_of_not_converged unfinished
          have total := total_afterRound same
          refine (inductionHypothesis ((length_afterRound same).trans lengths) rest).imp_right ?_
          intro more
          omega

/-- A pipeline that has not converged has applied a rule in each of its rounds. -/
theorem converged_or_le_total {pipeline : Pipeline} {stats : PipelineStats}
    {bench after : Workbench} (done : pipeline.run bench = .ok stats after) :
    stats.converged = true ∨ pipeline.maxRounds ≤ stats.total := by
  rcases runRounds_of_run done with ⟨between, rounds, -⟩
  have result := converged_or_le_of_runRounds (List.length_map _) rounds
  rw [total_start, Nat.zero_add] at result
  exact result

end Pipeline
end TensorCompiler
