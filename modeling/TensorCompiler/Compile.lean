import TensorCompiler.Schedule.Encoding
import TensorCompiler.Schedule.Packing
import TensorCompiler.Schedule.Scheduling
import TensorCompiler.Target

namespace TensorCompiler

/-!
# Compiling

A graph is swept, brought into the form its target wants, checked, and
scheduled.  The placement can be checked for conflicts and packed anew, and a
packed placement is always checked.
-/

/-- How to compile. -/
structure CompileOptions where
  /-- The most rounds through the passes. -/
  maxRounds : Nat := 16
  /-- The most regions that one pass may replace in a round. -/
  maxApplied : Nat := 100000
  /-- The time for packing, in nanoseconds, or nothing to skip it. -/
  packBudget : Option Nat := none
  /-- The seed of the random numbers that packing shuffles by. -/
  seed : Nat := 1802071150
  /-- Whether to check the placement for conflicts. -/
  verify : Bool := true
  /-- The shuffles that come of the seed, as many as there is time for.  They
  are not written down with the other options. -/
  shuffles : Schedule.Shuffles := Schedule.noShuffles

/-- The bytes that stand for options.  A time is written as whole seconds and
the nanoseconds beyond them. -/
def CompileOptions.encode (options : CompileOptions) : List UInt8 :=
  let budget := match options.packBudget with
    | none => Bytes.flag false
    | some budget =>
      Bytes.flag true ++ Bytes.word (budget / 1000000000) ++ Bytes.number 4 (budget % 1000000000)
  Bytes.word options.maxRounds ++ Bytes.word options.maxApplied ++ budget ++
    Bytes.word options.seed ++ Bytes.flag options.verify

/-- What compiling a graph yields beside the graph itself. -/
structure Compiled where
  stats : PipelineStats
  schedule : Schedule

/-- Pack a schedule if there is time for it, and check what was packed. -/
def packWithin (g : Graph) (capacities : PerKind (Option Nat)) (budget : Option Nat)
    (shuffles : Schedule.Shuffles) (schedule : Schedule) : Work Schedule :=
  match budget with
  | none => return schedule
  | some budget => do
    let (changed, packed) ← Work.recorded (schedule.pack capacities budget shuffles)
    if changed then packed.verify g
    return packed

/-- Compile the graph on the workbench. -/
def compile (target : Target) (options : CompileOptions) : Work Compiled := do
  if (← get).graph.outputs.isEmpty then refuse .emptyGraph
  let removed ← Work.edit Graph.removeUnreachable
  if 0 < removed then Work.note [.unreachableRemoved removed]
  let stats ← Pipeline.run ⟨target.passes, options.maxRounds, options.maxApplied⟩
  let g := (← get).graph
  target.check g
  let schedule ← Work.recorded (g.schedule target.allocators)
  if options.verify then schedule.verify g
  let schedule ← packWithin g target.allocators.capacities options.packBudget options.shuffles
    schedule
  Work.note [.compiled schedule.sequence.length target.name stats.rounds]
  return { stats, schedule }

end TensorCompiler
