import TensorCompiler.Proofs.Rewriting.Convergence

namespace TensorCompiler

/-!
# Budgets

A pass is given a number of applications that it may make, and a pipeline a number of
rounds.  Neither number is looked at before it is used up.  What a run does up to some
point is therefore the same whatever it may still do, and we describe it by a stretch:
so many applications, or rounds, with the statistics and the workbench at both ends.

A run that may do more than a stretch goes on from its end, and a run that may do no
more stops there.  A pass refuses to stop while there is something to apply; a pipeline
returns what it has.
-/

namespace Pass

variable {pass : Pass} {limit remaining count : Nat} {stats total : PassStats}
  {bench reached : Workbench}

/-! ## Applications of a pass -/

/-- A stretch of a run.  A number of times, the search finds a region, the rule is applied
to it and the graph is swept. -/
inductive Stretch (pass : Pass) :
    Nat → PassStats → Workbench → PassStats → Workbench → Prop
  | stop {stats : PassStats} {bench : Workbench} : Stretch pass 0 stats bench stats bench
  | step {count removed : Nat} {rule : Rule} {region : Region} {stats total : PassStats}
      {bench found next reached : Workbench}
      (finds : pass.nextMatch bench = .ok (some (rule, region)) found)
      (applies : pass.applyAt rule region found = .ok removed next)
      (rest : Stretch pass count (stats.afterApplying rule.name removed) next total reached) :
      Stretch pass (count + 1) stats bench total reached

theorem Stretch.applied_eq (stretch : pass.Stretch count stats bench total reached) :
    total.applied = stats.applied + count := by
  induction stretch with
  | stop => rfl
  | step _ _ _ inductionHypothesis =>
      rw [inductionHypothesis]
      exact Nat.add_right_comm _ 1 _

/-- A stretch can be broken off anywhere. -/
theorem Stretch.split {first second : Nat}
    (stretch : pass.Stretch (first + second) stats bench total reached) :
    ∃ early between, pass.Stretch first stats bench early between ∧
      pass.Stretch second early between total reached := by
  induction first generalizing stats bench with
  | zero => exact ⟨stats, bench, .stop, Nat.zero_add second ▸ stretch⟩
  | succ first inductionHypothesis =>
      rw [Nat.succ_add] at stretch
      cases stretch with
      | step finds applies rest =>
          rcases inductionHypothesis rest with ⟨early, between, before, after⟩
          exact ⟨early, between, .step finds applies before, after⟩

/-- A search succeeds whatever it finds, and leaves the graph as it is. -/
theorem nextMatch_eq_ok {found : Option (Rule × Region)} {after : Workbench} :
    pass.nextMatch bench = .ok found after ↔
      (pass.search bench.graph).2 = found ∧
        (⟨bench.graph, bench.journal ++ (pass.search bench.graph).1.toArray⟩ : Workbench) =
          after := by
  rw [show bench = ⟨bench.graph, bench.journal⟩ from rfl, nextMatch_eq, EStateM.Result.ok.injEq]

/-- A run goes on from the end of a stretch. -/
theorem Stretch.runWithin_add (stretch : pass.Stretch count stats bench total reached)
    (limit remaining : Nat) :
    pass.runWithin limit (count + remaining) stats bench =
      pass.runWithin limit remaining total reached := by
  induction stretch with
  | stop => rw [Nat.zero_add]
  | step finds applies _ inductionHypothesis =>
      rcases nextMatch_eq_ok.mp finds with ⟨offered, rfl⟩
      rw [← inductionHypothesis, Nat.succ_add]
      exact (runWithin_succ_of_some offered).trans (Stateful.bind_of_ok applies)

/-- A run that may make no more applications gives up if there is another one to make. -/
theorem Stretch.runWithin_zero (stretch : pass.Stretch (count + 1) stats bench total reached)
    (limit : Nat) :
    ∃ stopped, pass.runWithin limit 0 stats bench =
        .error (.refused (.passDiverged pass.name limit)) stopped ∧
      stopped.graph = bench.graph := by
  cases stretch with
  | step finds applies rest =>
      rcases nextMatch_eq_ok.mp finds with ⟨offered, rfl⟩
      exact ⟨_, runWithin_zero_of_some offered, rfl⟩

/-- A run that finds nothing to apply ends alike whatever it may still do. -/
theorem runWithin_eq_of_none {after : Workbench} (nothing : (pass.search bench.graph).2 = none)
    (done : pass.runWithin limit remaining stats bench = .ok total after) :
    total.applied = stats.applied ∧
      ∀ limit remaining, pass.runWithin limit remaining stats bench = .ok total after := by
  have ends := (runWithin_of_none nothing).symm.trans done
  constructor
  · rcases pass.finish_eq stats bench.graph
      (bench.journal ++ (pass.search bench.graph).1.toArray) with ⟨_, finishes, _⟩
    rcases EStateM.Result.ok.inj (finishes.symm.trans ends) with ⟨rfl, _⟩
    rfl
  · intro limit remaining
    exact (runWithin_of_none nothing).trans ends

/-- A run that succeeds goes through a stretch, and at its end it needs no budget. -/
theorem exists_stretch_of_runWithin {after : Workbench}
    (done : pass.runWithin limit remaining stats bench = .ok total after) :
    ∃ count early reached, pass.Stretch count stats bench early reached ∧
      total.applied = early.applied ∧
      ∀ limit remaining, pass.runWithin limit remaining early reached = .ok total after := by
  induction remaining generalizing stats bench with
  | zero =>
      cases found : (pass.search bench.graph).2 with
      | none => exact ⟨0, stats, bench, .stop, runWithin_eq_of_none found done⟩
      | some offered =>
          exact absurd ((runWithin_zero_of_some found).symm.trans done) Stateful.refuse_ne_ok
  | succ remaining inductionHypothesis =>
      cases found : (pass.search bench.graph).2 with
      | none => exact ⟨0, stats, bench, .stop, runWithin_eq_of_none found done⟩
      | some offered =>
          rcases Stateful.bind_eq_ok.mp ((runWithin_succ_of_some found).symm.trans done) with
            ⟨removed, next, applies, rest⟩
          rcases inductionHypothesis rest with ⟨count, early, reached, stretch, ends⟩
          exact ⟨count + 1, early, reached,
            .step (nextMatch_eq_ok.mpr ⟨found, rfl⟩) applies stretch, ends⟩

/-- The stretch of a run that succeeds has as many applications as the run counts. -/
theorem exists_stretch_of_run {after : Workbench}
    (done : pass.run limit bench = .ok total after) :
    ∃ early reached, pass.Stretch total.applied {} bench early reached ∧
      ∀ limit remaining, pass.runWithin limit remaining early reached = .ok total after := by
  rcases exists_stretch_of_runWithin done with ⟨count, early, reached, stretch, applied, ends⟩
  have counted : total.applied = count := by
    rw [applied, stretch.applied_eq]
    exact Nat.zero_add count
  exact ⟨early, reached, counted ▸ stretch, ends⟩

end Pass

/-! ## Rounds of a pipeline -/

namespace Pipeline

variable {pipeline : Pipeline} {count remaining : Nat} {stats total : PipelineStats}
  {bench reached after : Workbench}

/-- The statistics before the first round. -/
def noRounds (pipeline : Pipeline) : PipelineStats where
  applied := pipeline.passes.map fun pass => (pass.name, 0)

/-- A stretch of a run: a number of rounds, none of which ends it. -/
inductive Stretch (pipeline : Pipeline) :
    Nat → PipelineStats → Workbench → PipelineStats → Workbench → Prop
  | stop {stats : PipelineStats} {bench : Workbench} : Stretch pipeline 0 stats bench stats bench
  | step {count : Nat} {round : List PassStats} {stats total : PipelineStats}
      {bench next reached : Workbench}
      (runs : runRound pipeline.maxApplied pipeline.passes bench = .ok round next)
      (unfinished : (afterRound stats round).converged = false)
      (rest : Stretch pipeline count (afterRound stats round) next total reached) :
      Stretch pipeline (count + 1) stats bench total reached

theorem Stretch.rounds_eq (stretch : pipeline.Stretch count stats bench total reached) :
    total.rounds = stats.rounds + count := by
  induction stretch with
  | stop => rfl
  | step _ _ _ inductionHypothesis =>
      rw [inductionHypothesis]
      exact Nat.add_right_comm _ 1 _

theorem Stretch.converged_eq (stretch : pipeline.Stretch count stats bench total reached)
    (unfinished : stats.converged = false) : total.converged = false := by
  induction stretch with
  | stop => exact unfinished
  | step _ here _ inductionHypothesis => exact inductionHypothesis here

theorem Stretch.split {first second : Nat}
    (stretch : pipeline.Stretch (first + second) stats bench total reached) :
    ∃ early between, pipeline.Stretch first stats bench early between ∧
      pipeline.Stretch second early between total reached := by
  induction first generalizing stats bench with
  | zero => exact ⟨stats, bench, .stop, Nat.zero_add second ▸ stretch⟩
  | succ first inductionHypothesis =>
      rw [Nat.succ_add] at stretch
      cases stretch with
      | step runs unfinished rest =>
          rcases inductionHypothesis rest with ⟨early, between, before, after⟩
          exact ⟨early, between, .step runs unfinished before, after⟩

theorem runRounds_succ {round : List PassStats} {next : Workbench}
    (runs : runRound pipeline.maxApplied pipeline.passes bench = .ok round next) :
    pipeline.runRounds (remaining + 1) stats bench =
      if (afterRound stats round).converged then .ok (afterRound stats round) next
      else pipeline.runRounds remaining (afterRound stats round) next := by
  rw [runRounds, Stateful.bind_of_ok runs]
  split <;> rfl

theorem Stretch.runRounds_add (stretch : pipeline.Stretch count stats bench total reached)
    (remaining : Nat) :
    pipeline.runRounds (count + remaining) stats bench =
      pipeline.runRounds remaining total reached := by
  induction stretch with
  | stop => rw [Nat.zero_add]
  | step runs unfinished _ inductionHypothesis =>
      rw [← inductionHypothesis, Nat.succ_add, runRounds_succ runs, unfinished]
      rfl

/-- A run that converges goes through a stretch, and then one round is enough. -/
theorem exists_stretch_of_runRounds (start : stats.converged = false)
    (done : pipeline.runRounds remaining stats bench = .ok total after)
    (converged : total.converged = true) :
    ∃ count early reached, pipeline.Stretch count stats bench early reached ∧
      total.rounds = early.rounds + 1 ∧
      ∀ remaining, pipeline.runRounds (remaining + 1) early reached = .ok total after := by
  induction remaining generalizing stats bench with
  | zero =>
      rcases Stateful.pure_eq_ok.mp done with ⟨rfl, _⟩
      rw [start] at converged
      cases converged
  | succ remaining inductionHypothesis =>
      rcases Stateful.bind_eq_ok.mp done with ⟨round, next, runs, _⟩
      rw [runRounds_succ runs] at done
      split at done
      · next finished =>
        rcases EStateM.Result.ok.inj done with ⟨rfl, rfl⟩
        refine ⟨0, stats, bench, .stop, rfl, fun remaining => ?_⟩
        rw [runRounds_succ runs, if_pos finished]
      · next unfinished =>
        have goesOn := eq_false_of_ne_true unfinished
        rcases inductionHypothesis goesOn done with ⟨count, early, reached, stretch, ends⟩
        exact ⟨count + 1, early, reached, .step runs goesOn stretch, ends⟩

/-! ## Whole runs of a pipeline -/

theorem runRounds_maxRounds (pipeline : Pipeline) (most remaining : Nat) (stats : PipelineStats) :
    ({ pipeline with maxRounds := most } : Pipeline).runRounds remaining stats =
      pipeline.runRounds remaining stats := by
  induction remaining generalizing stats with
  | zero => rfl
  | succ remaining inductionHypothesis => simp only [runRounds, inductionHypothesis]

/-- The workbench with a note on how the rounds have ended. -/
def noted (stats : PipelineStats) (bench : Workbench) : Workbench where
  graph := bench.graph
  journal := bench.journal ++ #[if stats.converged then
    .pipelineConverged stats.rounds stats.total else .pipelineStopped stats.rounds]

/-- A pipeline runs rounds and then notes how they have ended. -/
theorem run_eq_ok :
    pipeline.run bench = .ok total after ↔
      ∃ reached,
        pipeline.runRounds pipeline.maxRounds pipeline.noRounds bench = .ok total reached ∧
        noted total reached = after := by
  unfold run
  rw [Stateful.bind_eq_ok]
  constructor
  · rintro ⟨stats, reached, rounds, rest⟩
    split at rest
    · next converged =>
      rcases EStateM.Result.ok.inj rest with ⟨rfl, rfl⟩
      refine ⟨reached, rounds, ?_⟩
      rw [noted, if_pos converged]
    · next unfinished =>
      rcases EStateM.Result.ok.inj rest with ⟨rfl, rfl⟩
      refine ⟨reached, rounds, ?_⟩
      rw [noted, if_neg unfinished]
  · rintro ⟨reached, rounds, rfl⟩
    refine ⟨total, reached, rounds, ?_⟩
    rw [noted]
    split <;> rfl

/-- Another number of rounds changes nothing but how many are run. -/
theorem run_maxRounds_eq_ok {most : Nat} :
    ({ pipeline with maxRounds := most } : Pipeline).run bench = .ok total after ↔
      ∃ reached, pipeline.runRounds most pipeline.noRounds bench = .ok total reached ∧
        noted total reached = after := by
  rw [run_eq_ok, runRounds_maxRounds]
  rfl

end Pipeline

/-! ## Smaller and larger budgets -/

/-- Budgets only cut runs short.  If a pass comes to its end, it comes to the same end with
every budget that allows for its applications.  With a smaller one it gives up as soon as the
budget is used up, in the midst of the longer run, which goes on from there to its end.  If a
pipeline converges, it comes to the same end with every number of rounds that allows for
those it took.  With fewer it returns after all of them, not having converged, in the midst of the
longer run again. -/
theorem budgets_cut_runs_short (pass : Pass) (pipeline : Pipeline) (bench : Workbench) :
    (∀ limit total after, pass.run limit bench = .ok total after →
      (∀ budget, total.applied ≤ budget → pass.run budget bench = .ok total after) ∧
      ∀ budget < total.applied, ∃ early reached stopped,
        pass.run budget bench = .error (.refused (.passDiverged pass.name budget)) stopped ∧
        pass.Stretch budget {} bench early reached ∧ stopped.graph = reached.graph ∧
        pass.runWithin limit (total.applied - budget) early reached = .ok total after) ∧
    ∀ total after, pipeline.run bench = .ok total after → total.converged = true →
      (∀ most, total.rounds ≤ most →
        ({ pipeline with maxRounds := most } : Pipeline).run bench = .ok total after) ∧
      ∀ most < total.rounds, ∃ early reached stopped last,
        ({ pipeline with maxRounds := most } : Pipeline).run bench = .ok early stopped ∧
        early.converged = false ∧ early.rounds = most ∧
        pipeline.Stretch most pipeline.noRounds bench early reached ∧
        stopped.graph = reached.graph ∧
        pipeline.runRounds (total.rounds - most) early reached = .ok total last ∧
        last.graph = after.graph := by
  constructor
  · intro limit total after done
    rcases Pass.exists_stretch_of_run done with ⟨last, ended, stretch, ends⟩
    constructor
    · intro budget enough
      rcases Nat.exists_eq_add_of_le enough with ⟨rest, rfl⟩
      rw [Pass.run, stretch.runWithin_add]
      exact ends _ _
    · intro budget short
      rcases Nat.exists_eq_add_of_lt short with ⟨missing, applied⟩
      rw [applied, Nat.add_assoc] at stretch
      rcases stretch.split with ⟨early, reached, before, later⟩
      rcases later.runWithin_zero budget with ⟨stopped, gives, graph⟩
      refine ⟨early, reached, stopped, ?_, before, graph, ?_⟩
      · rw [← gives]
        exact before.runWithin_add budget 0
      · rw [applied, Nat.add_assoc, Nat.add_sub_cancel_left]
        exact (later.runWithin_add limit 0).trans (ends _ _)
  · intro total after done converged
    rcases Pipeline.run_eq_ok.mp done with ⟨last, rounds, rfl⟩
    rcases Pipeline.exists_stretch_of_runRounds rfl rounds converged with
      ⟨count, beforeLast, turned, stretch, counted, ends⟩
    have totalRounds : total.rounds = count + 1 := by
      rw [counted, stretch.rounds_eq]
      exact congrArg (· + 1) (Nat.zero_add count)
    constructor
    · intro most enough
      rw [totalRounds] at enough
      rcases Nat.exists_eq_add_of_le enough with ⟨rest, rfl⟩
      refine Pipeline.run_maxRounds_eq_ok.mpr ⟨last, ?_, rfl⟩
      rw [Nat.add_assoc, stretch.runRounds_add, Nat.add_comm]
      exact ends rest
    · intro most short
      rw [totalRounds] at short ⊢
      rcases Nat.exists_eq_add_of_le (Nat.le_of_lt_succ short) with ⟨missing, rfl⟩
      rcases stretch.split with ⟨early, reached, before, later⟩
      refine ⟨early, reached, Pipeline.noted early reached, last, ?_, before.converged_eq rfl, ?_,
        before, rfl, ?_, rfl⟩
      · exact Pipeline.run_maxRounds_eq_ok.mpr ⟨reached, before.runRounds_add 0, rfl⟩
      · exact before.rounds_eq.trans (Nat.zero_add most)
      · rw [Nat.add_assoc, Nat.add_sub_cancel_left, later.runRounds_add]
        exact ends 0

/-- Three turns of the axes of a cube, which take three applications to remove. -/
def turnedThrice : Edit Nat := do
  let image ← Graph.input "image" ⟨.f32, [2, 2, 2]⟩
  let once ← Graph.transpose image [1, 2, 0]
  let twice ← Graph.transpose once [1, 2, 0]
  let thrice ← Graph.transpose twice [1, 2, 0]
  Graph.output "result" thrice

def removeTurns : Pass :=
  ⟨"turns", [.foldIdentityTranspose, .foldTwoTransposes]⟩

/-- Three applications are enough, and two are not.  The second round finds nothing, so two
rounds are enough, and one is not. -/
theorem budgets_turnedThrice :
    let pipeline : Pipeline := ⟨[removeTurns], 8, 100⟩
    ∃ g, turnedThrice .empty = .ok 4 g ∧
      (∃ total after stopped, removeTurns.run 100 ⟨g, #[]⟩ = .ok total after ∧
        removeTurns.run 3 ⟨g, #[]⟩ = .ok total after ∧
        removeTurns.run 2 ⟨g, #[]⟩ = .error (.refused (.passDiverged "turns" 2)) stopped) ∧
      ∃ total after early stopped, pipeline.run ⟨g, #[]⟩ = .ok total after ∧
        ({ pipeline with maxRounds := 2 } : Pipeline).run ⟨g, #[]⟩ = .ok total after ∧
        ({ pipeline with maxRounds := 1 } : Pipeline).run ⟨g, #[]⟩ = .ok early stopped ∧
        early.converged = false := by
  intro pipeline
  have built : turnedThrice .empty = .ok 4 (Stateful.final turnedThrice .empty) := rfl
  generalize graph : Stateful.final turnedThrice .empty = g at built
  have passRun : removeTurns.run 100 ⟨g, #[]⟩ =
      .ok ⟨3, [("fold_two_transposes", 2), ("fold_nop_transpose", 1)], 5⟩
        (Stateful.final (removeTurns.run 100) ⟨g, #[]⟩) := by
    rw [← graph, ← Stateful.value?_eq_some]
    decide +kernel
  have pipelineRun : pipeline.run ⟨g, #[]⟩ = .ok ⟨2, true, [("turns", 3)], 5⟩
      (Stateful.final pipeline.run ⟨g, #[]⟩) := by
    rw [← graph, ← Stateful.value?_eq_some]
    decide +kernel
  rcases budgets_cut_runs_short removeTurns pipeline ⟨g, #[]⟩ with ⟨passBudgets, rounds⟩
  rcases passBudgets 100 _ _ passRun with ⟨enough, short⟩
  rcases short 2 (by decide) with ⟨_, _, stopped, diverged, _⟩
  rcases rounds _ _ pipelineRun rfl with ⟨enoughRounds, shortRounds⟩
  rcases shortRounds 1 (by decide) with ⟨early, _, halted, _, returned, unfinished, _⟩
  exact ⟨g, built, ⟨_, _, stopped, passRun, enough 3 (by decide), diverged⟩,
    _, _, early, halted, pipelineRun, enoughRounds 2 (by decide), returned, unfinished⟩

end TensorCompiler
