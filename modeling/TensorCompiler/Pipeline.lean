import TensorCompiler.Pass

namespace TensorCompiler

/-!
# Pipelines

A pipeline runs its passes in order, round after round, until a whole round
applies no rule or the rounds are used up.  Using them up is not an error.
-/

/-- Passes with bounds on the work they may do. -/
structure Pipeline where
  passes : List Pass
  maxRounds : Nat
  maxApplied : Nat

/-- What a pipeline has done. -/
structure PipelineStats where
  rounds : Nat := 0
  /-- Whether the last round applied no rule. -/
  converged : Bool := false
  /-- The number of regions replaced by each pass. -/
  applied : List (String × Nat)
  /-- The number of nodes swept away. -/
  removed : Nat := 0
  deriving DecidableEq, Repr

/-- The number of regions replaced by all passes. -/
def PipelineStats.total (stats : PipelineStats) : Nat :=
  (stats.applied.map Prod.snd).foldr (· + ·) 0

namespace Pipeline

/-- Run passes in order. -/
def runRound (maxApplied : Nat) : List Pass → Work (List PassStats)
  | [] => return []
  | pass :: rest => do
    let stats ← pass.run maxApplied
    return stats :: (← runRound maxApplied rest)

/-- Add the results of a round. -/
def afterRound (stats : PipelineStats) (round : List PassStats) : PipelineStats where
  rounds := stats.rounds + 1
  converged := round.all fun pass => pass.applied == 0
  applied := stats.applied.zipWith (fun total pass => (total.1, total.2 + pass.applied)) round
  removed := stats.removed + (round.map PassStats.removed).foldr (· + ·) 0

/-- Run rounds until one changes nothing, at most `remaining` more. -/
def runRounds (pipeline : Pipeline) : (remaining : Nat) → PipelineStats → Work PipelineStats
  | 0, stats => return stats
  | remaining + 1, stats => do
    let stats := afterRound stats (← runRound pipeline.maxApplied pipeline.passes)
    if stats.converged then return stats else pipeline.runRounds remaining stats

/-- Run the pipeline. -/
def run (pipeline : Pipeline) : Work PipelineStats := do
  let stats ← pipeline.runRounds pipeline.maxRounds
    { applied := pipeline.passes.map fun pass => (pass.name, 0) }
  if stats.converged then Work.note [.pipelineConverged stats.rounds stats.total]
  else Work.note [.pipelineStopped stats.rounds]
  return stats

end Pipeline

end TensorCompiler
