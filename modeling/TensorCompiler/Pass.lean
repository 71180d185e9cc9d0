import TensorCompiler.Graph.Order
import TensorCompiler.Rule

namespace TensorCompiler

/-!
# Passes

A pass applies a set of rules until none of them applies any more.  Nodes are
offered to the rules in dependency order, and after each application the graph
is swept and the search starts over.
-/

/-- A named list of rules. -/
structure Pass where
  name : String
  rules : List Rule

/-- What a pass has done. -/
structure PassStats where
  /-- The number of regions replaced. -/
  applied : Nat := 0
  /-- The same by rule, for the rules that were applied. -/
  byRule : List (String × Nat) := []
  /-- The number of nodes swept away. -/
  removed : Nat := 0
  deriving DecidableEq, Repr

namespace PassStats

/-- Add one to the count of a name. -/
def countName (name : String) : List (String × Nat) → List (String × Nat)
  | [] => [(name, 1)]
  | (other, count) :: rest =>
    if other = name then (other, count + 1) :: rest else (other, count) :: countName name rest

/-- Count one application of a rule and the nodes swept away after it. -/
def afterApplying (stats : PassStats) (rule : String) (removed : Nat) : PassStats where
  applied := stats.applied + 1
  byRule := countName rule stats.byRule
  removed := stats.removed + removed

end PassStats

namespace Pass

/-! ## Searching -/

/-- The rules to try at an operator, in order.  A rule that names an operator
twice is tried twice. -/
def rulesFor (pass : Pass) (opcode : Opcode) : List Rule :=
  pass.rules.flatMap fun rule => List.replicate (rule.anchors.count opcode) rule

/-- The first of some rules that recognizes a replaceable region at a node,
with the events for those that recognize another region. -/
def tryRules (g : Graph) (id : Nat) : List Rule → List Event × Option (Rule × Region)
  | [] => ([], none)
  | rule :: rest =>
    match rule.recognize g id with
    | none => tryRules g id rest
    | some region =>
      if region.isReplaceable g then ([], some (rule, region))
      else
        let (events, found) := tryRules g id rest
        (.regionRejected rule.name id :: events, found)

/-- Try the rules at one node. -/
def tryNode (pass : Pass) (g : Graph) (id : Nat) : List Event × Option (Rule × Region) :=
  match g.op? id with
  | some op => tryRules g id (pass.rulesFor op.opcode)
  | none => ([], none)

/-- Try the rules at some nodes in order. -/
def tryNodes (pass : Pass) (g : Graph) : List Nat → List Event × Option (Rule × Region)
  | [] => ([], none)
  | id :: rest =>
    match pass.tryNode g id with
    | (events, some found) => (events, some found)
    | (events, none) =>
      let (more, found) := pass.tryNodes g rest
      (events ++ more, found)

/-- The first replaceable region in dependency order, with its rule. -/
def search (pass : Pass) (g : Graph) : List Event × Option (Rule × Region) :=
  pass.tryNodes g g.postorder

/-! ## Running -/

/-- Search the graph on the workbench. -/
def nextMatch (pass : Pass) : Work (Option (Rule × Region)) := do
  let (events, found) := pass.search (← get).graph
  Work.note events
  return found

/-- Apply a rule, then sweep.  The result is the number of nodes removed. -/
def applyAt (pass : Pass) (rule : Rule) (region : Region) : Work Nat := do
  let first ← Work.edit (Edit.ask fun g => do g.node (← entryAt region.nodes 0))
  Work.note [.applying pass.name rule.name first.name]
  rule.apply region
  Work.edit Graph.removeUnreachable

/-- Sweep once more and report. -/
def finish (pass : Pass) (stats : PassStats) : Work PassStats := do
  let removed ← Work.edit Graph.removeUnreachable
  let stats := { stats with removed := stats.removed + removed }
  if 0 < stats.applied then
    Work.note [.passConverged pass.name stats.applied stats.removed]
  return stats

/-- Apply rules until none applies, at most `remaining` more times. -/
def runWithin (pass : Pass) (limit : Nat) : (remaining : Nat) → PassStats → Work PassStats
  | remaining, stats => do
    match ← pass.nextMatch with
    | none => pass.finish stats
    | some (rule, region) =>
      match remaining with
      | 0 => refuse (.passDiverged pass.name limit)
      | remaining + 1 =>
        let removed ← pass.applyAt rule region
        pass.runWithin limit remaining (stats.afterApplying rule.name removed)

/-- Apply rules until none applies; needing more than `limit` applications is
an error. -/
def run (pass : Pass) (limit : Nat) : Work PassStats :=
  pass.runWithin limit limit {}

end Pass

end TensorCompiler
