import TensorCompiler.Compile
import TensorCompiler.Proofs.Graph.Sweeping
import TensorCompiler.Proofs.Rewriting.Replacement

namespace TensorCompiler

/-!
# The stages of compiling

A graph with declared outputs is swept, rewritten and laid out in memory.  Only
the first two stages change it.
-/

/-- Pack the schedule of a graph and report. -/
def settle (target : Target) (options : CompileOptions) (stats : PipelineStats) (g : Graph)
    (schedule : Schedule) : Work Compiled := do
  let schedule ← packWithin g target.allocators.capacities options.packBudget options.shuffles
    schedule
  Work.note [.compiled schedule.sequence.length target.name stats.rounds]
  return { stats, schedule }

/-- The last stage: check the rewritten graph, schedule it and place its buffers. -/
def layOut (target : Target) (options : CompileOptions) (stats : PipelineStats) :
    Work Compiled := do
  let g := (← get).graph
  target.check g
  let schedule ← Work.recorded (g.schedule target.allocators)
  if options.verify then schedule.verify g
  settle target options stats g schedule

/-- The journal after the first sweep. -/
def sweptJournal (g : Graph) (journal : Journal) : Journal :=
  if 0 < g.countOutside g.reachable then
    journal ++ [Event.unreachableRemoved (g.countOutside g.reachable)].toArray
  else journal

variable {target : Target} {options : CompileOptions} {g : Graph} {journal : Journal}
  {compiled : Compiled} {after : Workbench}

theorem compile_eq :
    compile target options ⟨g, journal⟩ =
      if g.outputs.isEmpty then .error (.refused .emptyGraph) ⟨g, journal⟩
      else (Pipeline.run ⟨target.passes, options.maxRounds, options.maxApplied⟩ >>=
        layOut target options) ⟨g.swept, sweptJournal g journal⟩ := by
  have swept : Work.edit Graph.removeUnreachable ⟨g, journal⟩ =
      .ok (g.countOutside g.reachable) ⟨g.swept, journal⟩ := rfl
  have got : (get : Work Workbench) ⟨g, journal⟩ = .ok ⟨g, journal⟩ ⟨g, journal⟩ := rfl
  unfold compile
  rw [Stateful.bind_of_ok got]
  split
  · rfl
  · apply (Stateful.bind_of_ok swept).trans
    rw [sweptJournal]
    split <;> rfl

theorem graph_packWithin {capacities : PerKind (Option Nat)} {budget : Option Nat}
    {shuffles : Schedule.Shuffles} {schedule packed : Schedule} {bench : Workbench}
    (done : packWithin g capacities budget shuffles schedule bench = .ok packed after) :
    after.graph = bench.graph := by
  cases budget with
  | none =>
      rcases Stateful.pure_eq_ok.mp done with ⟨_, rfl⟩
      rfl
  | some budget =>
      simp only [packWithin, Stateful.bind_eq_ok, Work.recorded_eq_ok] at done
      rcases done with ⟨_, between, ⟨_, same⟩, rest⟩
      rw [← same]
      split at rest
      · simp only [Stateful.bind_eq_ok, Stateful.lift_eq_ok, Stateful.pure_eq_ok] at rest
        rcases rest with ⟨_, _, ⟨_, rfl⟩, _, rfl⟩
        rfl
      · rcases Stateful.pure_eq_ok.mp rest with ⟨_, rfl⟩
        rfl

theorem graph_settle {stats : PipelineStats} {schedule : Schedule} {bench : Workbench}
    (done : settle target options stats g schedule bench = .ok compiled after) :
    after.graph = bench.graph := by
  simp only [settle, Stateful.bind_eq_ok, Work.note_eq_ok, Stateful.pure_eq_ok] at done
  rcases done with ⟨_, between, packed, _, _, ⟨noted, _⟩, _, rfl⟩
  exact noted.trans (graph_packWithin packed)

theorem graph_layOut {stats : PipelineStats} {bench : Workbench}
    (done : layOut target options stats bench = .ok compiled after) :
    after.graph = bench.graph := by
  simp only [layOut, Stateful.bind_eq_ok, Stateful.get_eq_ok, Stateful.lift_eq_ok,
    Work.recorded_eq_ok] at done
  rcases done with ⟨_, _, ⟨rfl, rfl⟩, _, _, ⟨_, rfl⟩, _, between, ⟨_, same⟩, rest⟩
  rw [← same]
  split at rest
  · simp only [Stateful.bind_eq_ok, Stateful.lift_eq_ok] at rest
    rcases rest with ⟨_, _, ⟨_, rfl⟩, settled⟩
    exact graph_settle settled
  · exact graph_settle rest

theorem stats_settle {stats : PipelineStats} {schedule : Schedule} {bench : Workbench}
    (done : settle target options stats g schedule bench = .ok compiled after) :
    compiled.stats = stats := by
  simp only [settle, Stateful.bind_eq_ok, Stateful.pure_eq_ok] at done
  rcases done with ⟨_, _, _, _, _, _, rfl, _⟩
  rfl

theorem stats_layOut {stats : PipelineStats} {bench : Workbench}
    (done : layOut target options stats bench = .ok compiled after) : compiled.stats = stats := by
  simp only [layOut, Stateful.bind_eq_ok] at done
  rcases done with ⟨_, _, _, _, _, _, _, _, _, rest⟩
  split at rest
  · rcases Stateful.bind_eq_ok.mp rest with ⟨_, _, _, settled⟩
    exact stats_settle settled
  · exact stats_settle rest

/-- The graph that compiling leaves and the statistics it reports are those of the
passes, run on the swept graph. -/
theorem run_of_compile (done : compile target options ⟨g, journal⟩ = .ok compiled after) :
    ∃ between, Pipeline.run ⟨target.passes, options.maxRounds, options.maxApplied⟩
        ⟨g.swept, sweptJournal g journal⟩ = .ok compiled.stats between ∧
      after.graph = between.graph := by
  rw [compile_eq] at done
  split at done
  · cases done
  · rcases Stateful.bind_eq_ok.mp done with ⟨stats, between, ran, laidOut⟩
    rw [stats_layOut laidOut]
    exact ⟨between, ran, graph_layOut laidOut⟩

end TensorCompiler
