import TensorCompiler.Pipeline
import TensorCompiler.Proofs.Graph.Integrity
import TensorCompiler.Proofs.Rewriting.Replacement
import TensorCompiler.Proofs.Rewriting.Searching

namespace TensorCompiler

/-!
# Convergence

A run of a pass that succeeds is a series of applications, each with a sweep, until a
search finds nothing; then the graph is swept once more.

The last search and the last sweep do not look at the same graph.  After an
application the graph is swept before it is searched again, so the last sweep removes
nothing and another run finds what the first one found.  If there was no application,
the search has seen the graph as it was given.  Nodes that no declared output needs
count as readers there, and a region that only they keep from being replaced can be
replaced once they are gone.  So a second run can find work that the first one left.

Pipelines end with a round without applications.  Its passes are all given the same
graph, which has been swept, and none of them finds anything in it.
-/

namespace Pass

variable {pass : Pass} {g h : Graph} {rule : Rule} {region : Region} {journal : Journal}

/-! ## Traces -/

/-- One application of a rule to a region that the search offers, and the sweep after it. -/
inductive Rewrites (pass : Pass) (g : Graph) : Graph → Prop
  | intro {rule : Rule} {region : Region} {id : Nat} {op : Operator} {journal : Journal}
      {after : Workbench} (offers : pass.Offers g rule region id op)
      (applied : rule.apply region ⟨g, journal⟩ = .ok () after) : Rewrites pass g after.graph.swept

/-- A number of applications in a row. -/
inductive Trace (pass : Pass) : Nat → Graph → Graph → Prop
  | stop {g : Graph} : Trace pass 0 g g
  | step {count : Nat} {g h k : Graph} (first : pass.Rewrites g h) (later : Trace pass count h k) :
      Trace pass (count + 1) g k

/-- What counts the applications keeps count of them along a trace. -/
theorem Trace.counted {count : Nat} (holds : Nat → Graph → Prop) (trace : pass.Trace count g h)
    (already : Nat) (start : holds already g)
    (step : ∀ already g h, holds already g → pass.Rewrites g h → holds (already + 1) h) :
    holds (already + count) h := by
  induction trace generalizing already with
  | stop => exact start
  | @step count _ _ _ first later inductionHypothesis =>
      have next := inductionHypothesis (already + 1) (step _ _ _ start first)
      rw [Nat.add_right_comm] at next
      exact next

theorem Trace.holds {count : Nat} (holds : Graph → Prop) (trace : pass.Trace count g h)
    (start : holds g) (step : ∀ g h, holds g → pass.Rewrites g h → holds h) : holds h :=
  trace.counted (fun _ => holds) 0 start fun _ => step

/-- A graph that comes out of an application has been swept. -/
theorem Rewrites.swept_eq_self (rewrites : pass.Rewrites g h) : h.swept = h := by
  cases rewrites with
  | intro offers applied => exact Graph.swept_swept _

theorem Trace.swept_eq_self {count : Nat} (trace : pass.Trace count g h) (applied : 0 < count) :
    h.swept = h := by
  cases trace with
  | stop => exact absurd applied (Nat.lt_irrefl 0)
  | step first later =>
      exact later.holds (fun g => g.swept = g) first.swept_eq_self fun _ _ _ rewrites =>
        rewrites.swept_eq_self

theorem rewrites_of_applyAt {id removed : Nat} {op : Operator} {after : Workbench}
    (offers : pass.Offers g rule region id op)
    (done : pass.applyAt rule region ⟨g, journal⟩ = .ok removed after) :
    pass.Rewrites g after.graph := by
  simp only [applyAt, Stateful.bind_eq_ok, Work.edit_eq_ok, Work.note_eq_ok, Edit.ask_eq_ok]
    at done
  obtain ⟨_, ⟨named, _⟩, ⟨⟨_, rfl⟩, _⟩, _, ⟨noted, _⟩, ⟨rfl, _⟩, _, between, applied, removes, _⟩ :=
    done
  rw [Graph.removeUnreachable_eq] at removes
  obtain ⟨-, swept⟩ := EStateM.Result.ok.inj removes
  rw [← swept]
  exact .intro offers applied

theorem finish_eq (pass : Pass) (stats : PassStats) (g : Graph) (journal : Journal) :
    ∃ after, pass.finish stats ⟨g, journal⟩ =
        .ok { stats with removed := stats.removed + g.countOutside g.reachable } after ∧
      after.graph = g.swept := by
  have swept : Work.edit Graph.removeUnreachable ⟨g, journal⟩ =
      .ok (g.countOutside g.reachable) ⟨g.swept, journal⟩ := rfl
  unfold finish
  rw [Stateful.bind_of_ok swept]
  split
  · exact ⟨_, rfl, rfl⟩
  · exact ⟨_, rfl, rfl⟩

/-- A run that succeeds has applied rules until a search found nothing. -/
theorem runWithin_eq_ok {limit remaining : Nat} {stats result : PassStats} {after : Workbench}
    (done : pass.runWithin limit remaining stats ⟨g, journal⟩ = .ok result after) :
    ∃ count last, pass.Trace count g last ∧ (pass.search last).2 = none ∧
      result.applied = stats.applied + count ∧ after.graph = last.swept := by
  have ended : ∀ {remaining : Nat} {stats : PassStats} {g : Graph} {journal : Journal},
      (pass.search g).2 = none →
      pass.runWithin limit remaining stats ⟨g, journal⟩ = .ok result after →
      ∃ count last, pass.Trace count g last ∧ (pass.search last).2 = none ∧
        result.applied = stats.applied + count ∧ after.graph = last.swept := by
    intro remaining stats g journal found done
    rw [runWithin_of_none found] at done
    obtain ⟨finished, finishes, graph⟩ := pass.finish_eq stats g
      (journal ++ (pass.search g).1.toArray)
    obtain ⟨rfl, rfl⟩ := EStateM.Result.ok.inj (finishes.symm.trans done)
    exact ⟨0, g, .stop, found, rfl, graph⟩
  induction remaining generalizing g stats journal with
  | zero =>
      cases found : (pass.search g).2 with
      | none => exact ended found done
      | some offered =>
          rw [runWithin_zero_of_some found] at done
          exact absurd done Stateful.refuse_ne_ok
  | succ remaining inductionHypothesis =>
      cases found : (pass.search g).2 with
      | none => exact ended found done
      | some offered =>
          obtain ⟨rule, region⟩ := offered
          obtain ⟨id, op, offers⟩ := tryNodes_eq_some found
          rw [runWithin_succ_of_some found] at done
          obtain ⟨removed, between, applied, rest⟩ := Stateful.bind_eq_ok.mp done
          obtain ⟨count, last, later, nothing, counted, graph⟩ := inductionHypothesis rest
          refine ⟨count + 1, last, .step (rewrites_of_applyAt offers applied) later, nothing, ?_,
            graph⟩
          rw [counted]
          exact Nat.add_right_comm stats.applied 1 count

theorem run_eq_ok {limit : Nat} {stats : PassStats} {after : Workbench}
    (done : pass.run limit ⟨g, journal⟩ = .ok stats after) :
    ∃ last, pass.Trace stats.applied g last ∧ (pass.search last).2 = none ∧
      after.graph = last.swept := by
  obtain ⟨count, last, trace, nothing, counted, graph⟩ := runWithin_eq_ok done
  have applied : stats.applied = count := counted.trans (Nat.zero_add count)
  exact ⟨last, applied ▸ trace, nothing, graph⟩

/-- What counts the applications, and is kept by every sweep, keeps count of them in a run
that succeeds. -/
theorem counted_run (holds : Nat → Graph → Prop) (already : Nat) {limit : Nat}
    {stats : PassStats} {after : Workbench}
    (step : ∀ already g h, holds already g → pass.Rewrites g h → holds (already + 1) h)
    (sweep : ∀ already g, holds already g → holds already g.swept) (start : holds already g)
    (done : pass.run limit ⟨g, journal⟩ = .ok stats after) :
    holds (already + stats.applied) after.graph := by
  obtain ⟨last, trace, -, graph⟩ := run_eq_ok done
  rw [graph]
  exact sweep _ last (trace.counted holds already start step)

/-- What every application and every sweep keeps is kept by a run that succeeds. -/
theorem holds_run (holds : Graph → Prop) {limit : Nat} {stats : PassStats} {after : Workbench}
    (step : ∀ g h, holds g → pass.Rewrites g h → holds h)
    (sweep : ∀ g, holds g → holds g.swept) (start : holds g)
    (done : pass.run limit ⟨g, journal⟩ = .ok stats after) : holds after.graph :=
  counted_run (fun _ => holds) 0 (fun _ => step) (fun _ => sweep) start done

/-! ## Runs that change nothing -/

/-- Whatever its limit, a run of the pass succeeds, applies no rule, removes no node and
leaves the graph as it is. -/
def Idle (pass : Pass) (g : Graph) : Prop :=
  ∀ limit journal, ∃ after, pass.run limit ⟨g, journal⟩ = .ok {} after ∧ after.graph = g

theorem idle_swept_iff : pass.Idle g.swept ↔ (pass.search g.swept).2 = none := by
  constructor
  · intro idle
    -- A run that may not apply any rule is refused as soon as it finds something.
    obtain ⟨after, done, -⟩ := idle 0 #[]
    obtain ⟨last, trace, nothing, -⟩ := run_eq_ok done
    cases trace
    exact nothing
  · intro nothing limit journal
    obtain ⟨after, finished, graph⟩ := pass.finish_eq {} g.swept
      (journal ++ (pass.search g.swept).1.toArray)
    rw [Graph.countOutside_swept] at finished
    refine ⟨after, ?_, graph.trans g.swept_swept⟩
    rw [run, runWithin_of_none nothing]
    exact finished

/-- When a pass can be run again without changing anything.  After a run that succeeds,
another one is idle exactly if the first one has applied a rule, or the pass finds
nothing in the graph it was given once that graph is swept.  If all of the graph was
reachable to begin with, another run is always idle. -/
theorem idle_after_run {limit : Nat} {stats : PassStats} {after : Workbench}
    (done : pass.run limit ⟨g, journal⟩ = .ok stats after) :
    (pass.Idle after.graph ↔ 0 < stats.applied ∨ (pass.search g.swept).2 = none) ∧
      (g.Intact → (∀ id, g.contains id = true → g.reachable.contains id = true) →
        pass.Idle after.graph) := by
  obtain ⟨last, trace, nothing, graph⟩ := run_eq_ok done
  have exactly : pass.Idle after.graph ↔ 0 < stats.applied ∨ (pass.search g.swept).2 = none := by
    rw [graph, idle_swept_iff]
    by_cases applied : 0 < stats.applied
    · rw [trace.swept_eq_self applied]
      exact iff_of_true nothing (Or.inl applied)
    · rw [Nat.eq_zero_of_not_pos applied] at trace ⊢
      cases trace
      simp
  refine ⟨exactly, fun intact reached => exactly.mpr ?_⟩
  rw [intact.swept_eq_self reached]
  by_cases applied : 0 < stats.applied
  · exact Or.inl applied
  · rw [Nat.eq_zero_of_not_pos applied] at trace
    cases trace
    exact Or.inr nothing

/-- A transpose back and forth; a node that no declared output needs reads the value in
between. -/
def turnedAside : Edit Nat := do
  let image ← Graph.input "image" ⟨.f32, [2, 3]⟩
  let turned ← Graph.transpose image [1, 0]
  let turnedBack ← Graph.transpose turned [1, 0]
  let _ ← Graph.unary .abs turned
  Graph.output "result" turnedBack

def foldTurns : Pass :=
  ⟨"fold", [Rule.foldTwoTransposes]⟩

/-- The run on the graph that is left after one application is idle. -/
theorem idle_after_run_rectified :
    ∃ stats after, foldTurns.run 1 ⟨Graph.rectified, #[]⟩ = .ok stats after ∧
      stats.applied = 1 ∧ foldTurns.Idle after.graph := by
  have done : foldTurns.run 1 ⟨Graph.rectified, #[]⟩ = .ok ⟨1, [("fold_two_transposes", 1)], 2⟩
      (Stateful.final (foldTurns.run 1) ⟨Graph.rectified, #[]⟩) := by
    apply Stateful.value?_eq_some.mp
    decide +kernel
  exact ⟨_, _, done, rfl, (idle_after_run done).1.mpr (Or.inl Nat.one_pos)⟩

/-- The first run only removes the reader aside.  The second one then folds the
transposes, so it is not idle. -/
theorem not_idle_turnedAside :
    ∃ g first between second after, turnedAside .empty = .ok 4 g ∧
      foldTurns.run 100 ⟨g, #[]⟩ = .ok first between ∧ first.applied = 0 ∧ first.removed = 1 ∧
      foldTurns.run 100 between = .ok second after ∧ second.applied = 1 ∧ second.removed = 2 ∧
      ¬ foldTurns.Idle between.graph := by
  have built : turnedAside .empty = .ok 4 (Stateful.final turnedAside .empty) := rfl
  generalize graph : Stateful.final turnedAside .empty = g at built
  have first : foldTurns.run 100 ⟨g, #[]⟩ =
      .ok ⟨0, [], 1⟩ (Stateful.final (foldTurns.run 100) ⟨g, #[]⟩) := by
    rw [← graph, ← Stateful.value?_eq_some]
    decide +kernel
  generalize bench : Stateful.final (foldTurns.run 100) ⟨g, #[]⟩ = between at first
  have second : foldTurns.run 100 between = .ok ⟨1, [("fold_two_transposes", 1)], 2⟩
      (Stateful.final (foldTurns.run 100) between) := by
    rw [← bench, ← graph, ← Stateful.value?_eq_some]
    decide +kernel
  refine ⟨g, _, between, _, _, built, first, rfl, rfl, second, rfl, rfl, ?_⟩
  intro idle
  obtain ⟨after, again, -⟩ := idle 100 between.journal
  have same := EStateM.Result.ok.inj (again.symm.trans second)
  exact absurd (congrArg PassStats.applied same.1) Nat.zero_ne_one

end Pass

/-! ## Pipelines -/

namespace Pipeline

variable {g : Graph} {journal : Journal} {after : Workbench}

/-- A round has the statistics of each pass. -/
theorem length_runRound {maxApplied : Nat} {passes : List Pass} {bench : Workbench}
    {round : List PassStats} (done : runRound maxApplied passes bench = .ok round after) :
    round.length = passes.length := by
  induction passes generalizing bench round with
  | nil =>
      rw [runRound, Stateful.pure_eq_ok] at done
      exact congrArg List.length done.1.symm
  | cons pass rest inductionHypothesis =>
      simp only [runRound, Stateful.bind_eq_ok, Stateful.pure_eq_ok] at done
      obtain ⟨stats, between, -, others, last, later, rfl, rfl⟩ := done
      exact congrArg (· + 1) (inductionHypothesis later)

theorem length_afterRound {stats : PipelineStats} {round : List PassStats}
    (lengths : round.length = stats.applied.length) :
    (afterRound stats round).applied.length = stats.applied.length := by
  simp [afterRound, lengths]

theorem total_afterRound {stats : PipelineStats} {round : List PassStats}
    (lengths : round.length = stats.applied.length) :
    (afterRound stats round).total = stats.total + (round.map PassStats.applied).sum := by
  unfold PipelineStats.total afterRound
  generalize stats.applied = totals at lengths
  induction totals generalizing round with
  | nil => simp [List.length_eq_zero_iff.mp lengths]
  | cons total rest inductionHypothesis =>
      rcases List.exists_cons_of_length_eq_add_one lengths with ⟨pass, others, rfl⟩
      have later := inductionHypothesis (Nat.succ.inj lengths)
      simp only [List.zipWith_cons_cons, List.map_cons, List.foldr_cons, List.sum_cons] at later ⊢
      omega

theorem counted_runRound (holds : Nat → Graph → Prop) (already : Nat) {bench : Workbench}
    {maxApplied : Nat} {passes : List Pass} {round : List PassStats}
    (step : ∀ pass ∈ passes, ∀ already g h, holds already g → pass.Rewrites g h →
      holds (already + 1) h)
    (sweep : ∀ already g, holds already g → holds already g.swept)
    (start : holds already bench.graph)
    (done : runRound maxApplied passes bench = .ok round after) :
    holds (already + (round.map PassStats.applied).sum) after.graph := by
  induction passes generalizing bench round already with
  | nil =>
      rw [runRound, Stateful.pure_eq_ok] at done
      obtain ⟨rfl, rfl⟩ := done
      exact start
  | cons pass rest inductionHypothesis =>
      simp only [runRound, Stateful.bind_eq_ok, Stateful.pure_eq_ok] at done
      obtain ⟨stats, between, first, others, last, later, rfl, rfl⟩ := done
      have middle : holds (already + stats.applied) between.graph :=
        Pass.counted_run holds already (step pass List.mem_cons_self) sweep start first
      rw [List.map_cons, List.sum_cons, ← Nat.add_assoc]
      exact inductionHypothesis _ (fun pass member => step pass (List.mem_cons_of_mem _ member))
        middle later

theorem counted_runRounds (holds : Nat → Graph → Prop) {pipeline : Pipeline} {bench : Workbench}
    {remaining : Nat} {before stats : PipelineStats}
    (step : ∀ pass ∈ pipeline.passes, ∀ already g h, holds already g → pass.Rewrites g h →
      holds (already + 1) h)
    (sweep : ∀ already g, holds already g → holds already g.swept)
    (lengths : before.applied.length = pipeline.passes.length)
    (start : holds before.total bench.graph)
    (done : pipeline.runRounds remaining before bench = .ok stats after) :
    holds stats.total after.graph := by
  induction remaining generalizing bench before with
  | zero =>
      rw [runRounds, Stateful.pure_eq_ok] at done
      obtain ⟨rfl, rfl⟩ := done
      exact start
  | succ remaining inductionHypothesis =>
      simp only [runRounds, Stateful.bind_eq_ok] at done
      obtain ⟨round, between, first, rest⟩ := done
      have same : round.length = before.applied.length :=
        (length_runRound first).trans lengths.symm
      have middle : holds (afterRound before round).total between.graph := by
        rw [total_afterRound same]
        exact counted_runRound holds before.total step sweep start first
      split at rest
      · obtain ⟨rfl, rfl⟩ := Stateful.pure_eq_ok.mp rest
        exact middle
      · exact inductionHypothesis ((length_afterRound same).trans lengths) middle rest

/-- A pipeline runs rounds and then only records how they ended. -/
theorem runRounds_of_run {pipeline : Pipeline} {bench : Workbench} {stats : PipelineStats}
    (done : pipeline.run bench = .ok stats after) :
    ∃ between, pipeline.runRounds pipeline.maxRounds
        { applied := pipeline.passes.map fun pass => (pass.name, 0) } bench = .ok stats between ∧
      after.graph = between.graph := by
  simp only [run, Stateful.bind_eq_ok] at done
  obtain ⟨result, between, rounds, rest⟩ := done
  split at rest
  · obtain ⟨_, noted, notes, rfl, rfl⟩ := Stateful.bind_eq_ok.mp rest
    exact ⟨between, rounds, (Work.note_eq_ok.mp notes).1⟩
  · obtain ⟨_, noted, notes, rfl, rfl⟩ := Stateful.bind_eq_ok.mp rest
    exact ⟨between, rounds, (Work.note_eq_ok.mp notes).1⟩

theorem total_start (passes : List Pass) :
    PipelineStats.total { applied := passes.map fun pass => (pass.name, 0) } = 0 := by
  induction passes with
  | nil => rfl
  | cons pass rest inductionHypothesis => exact (Nat.zero_add _).trans inductionHypothesis

/-- What counts the applications keeps count of them in a whole run of a pipeline. -/
theorem counted_of_run (holds : Nat → Graph → Prop) {pipeline : Pipeline} {stats : PipelineStats}
    (step : ∀ pass ∈ pipeline.passes, ∀ already g h, holds already g → pass.Rewrites g h →
      holds (already + 1) h)
    (sweep : ∀ already g, holds already g → holds already g.swept) (start : holds 0 g)
    (done : pipeline.run ⟨g, journal⟩ = .ok stats after) : holds stats.total after.graph := by
  obtain ⟨between, rounds, graph⟩ := runRounds_of_run done
  rw [graph]
  refine counted_runRounds holds step sweep (List.length_map _) ?_ rounds
  rw [total_start]
  exact start

theorem holds_of_run (holds : Graph → Prop) {pipeline : Pipeline} {stats : PipelineStats}
    (step : ∀ pass ∈ pipeline.passes, ∀ g h, holds g → pass.Rewrites g h → holds h)
    (sweep : ∀ g, holds g → holds g.swept) (start : holds g)
    (done : pipeline.run ⟨g, journal⟩ = .ok stats after) : holds after.graph :=
  counted_of_run (fun _ => holds) (fun pass member _ => step pass member) (fun _ => sweep) start
    done

theorem swept_runRound {bench : Workbench} {maxApplied : Nat} {passes : List Pass}
    {round : List PassStats} (swept : bench.graph.swept = bench.graph)
    (done : runRound maxApplied passes bench = .ok round after) :
    after.graph.swept = after.graph :=
  counted_runRound (fun _ g => g.swept = g) 0
    (fun _ _ _ _ _ _ rewrites => rewrites.swept_eq_self) (fun _ g _ => g.swept_swept) swept done

theorem swept_of_run {pipeline : Pipeline} {stats : PipelineStats} (swept : g.swept = g)
    (done : pipeline.run ⟨g, journal⟩ = .ok stats after) : after.graph.swept = after.graph :=
  holds_of_run (fun g => g.swept = g) (fun _ _ _ _ _ rewrites => rewrites.swept_eq_self)
    (fun g _ => g.swept_swept) swept done

/-- In a round without applications no pass finds anything in the graph of that round. -/
theorem idle_of_runRound {bench : Workbench} {maxApplied : Nat} {passes : List Pass}
    {round : List PassStats} (swept : bench.graph.swept = bench.graph)
    (done : runRound maxApplied passes bench = .ok round after)
    (nothing : ∀ stats ∈ round, stats.applied = 0) :
    after.graph = bench.graph ∧ ∀ pass ∈ passes, pass.Idle bench.graph := by
  induction passes generalizing bench round with
  | nil =>
      rw [runRound, Stateful.pure_eq_ok] at done
      exact ⟨congrArg Workbench.graph done.2.symm, fun pass member => nomatch member⟩
  | cons pass rest inductionHypothesis =>
      simp only [runRound, Stateful.bind_eq_ok, Stateful.pure_eq_ok] at done
      obtain ⟨stats, between, first, others, last, later, rfl, rfl⟩ := done
      obtain ⟨final, trace, found, graph⟩ := Pass.run_eq_ok first
      rw [nothing stats List.mem_cons_self] at trace
      cases trace
      have unchanged : between.graph = bench.graph := graph.trans swept
      have idle : pass.Idle bench.graph := by
        rw [← swept] at found ⊢
        exact Pass.idle_swept_iff.mpr found
      obtain ⟨same, restIdle⟩ := inductionHypothesis (unchanged ▸ swept) later
        fun stats member => nothing stats (List.mem_cons_of_mem _ member)
      rw [unchanged] at same restIdle
      exact ⟨same, List.forall_mem_cons.mpr ⟨idle, restIdle⟩⟩

theorem idle_of_runRounds {pipeline : Pipeline} {bench : Workbench} {remaining : Nat}
    {before stats : PipelineStats} (swept : bench.graph.swept = bench.graph)
    (unfinished : before.converged = false)
    (done : pipeline.runRounds remaining before bench = .ok stats after)
    (converged : stats.converged = true) : ∀ pass ∈ pipeline.passes, pass.Idle after.graph := by
  induction remaining generalizing bench before with
  | zero =>
      rw [runRounds, Stateful.pure_eq_ok] at done
      rw [← done.1, unfinished] at converged
      cases converged
  | succ remaining inductionHypothesis =>
      simp only [runRounds, Stateful.bind_eq_ok] at done
      obtain ⟨round, between, first, rest⟩ := done
      split at rest
      · next last =>
          obtain ⟨-, rfl⟩ := Stateful.pure_eq_ok.mp rest
          have nothing : ∀ stats ∈ round, stats.applied = 0 := by
            simpa [afterRound] using last
          obtain ⟨same, idle⟩ := idle_of_runRound swept first nothing
          exact same ▸ idle
      · next unfinished =>
          exact inductionHypothesis (swept_runRound swept first) (eq_false_of_ne_true unfinished)
            rest

/-- After a pipeline has converged, no pass of it finds anything to do. -/
theorem idle_of_converged {pipeline : Pipeline} {stats : PipelineStats} (swept : g.swept = g)
    (done : pipeline.run ⟨g, journal⟩ = .ok stats after)
    (converged : stats.converged = true) : ∀ pass ∈ pipeline.passes, pass.Idle after.graph := by
  obtain ⟨between, rounds, graph⟩ := runRounds_of_run done
  rw [graph]
  refine idle_of_runRounds ?_ rfl rounds converged
  exact swept

end Pipeline
end TensorCompiler
