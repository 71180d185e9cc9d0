import TensorCompiler.Memory.FreeSpace

namespace TensorCompiler

/-!
# The journal

What the compiler does is recorded as events, in the order in which they
happen.  An event is data; its level and wording are given here once.
-/

/-- How much attention an event deserves. -/
inductive Level where
  | trace
  | debug
  | info
  | warn
  deriving DecidableEq, Repr

def Level.name : Level → String
  | trace => "TRACE"
  | debug => "DEBUG"
  | info => "INFO"
  | warn => "WARN"

/-- Something that happened during compilation. -/
inductive Event where
  | applying (pass rule node : String)
  | regionRejected (rule : String) (id : Nat)
  | passConverged (pass : String) (applied removed : Nat)
  | pipelineConverged (rounds applied : Nat)
  | pipelineStopped (rounds : Nat)
  | loweredToAccelerator (id : Nat)
  | allocated (node : String) (kind : MemoryKind) (block : Block) (pinned : Bool)
  | memoryUsed (kind : MemoryKind) (reserved peakLive : Nat)
  | noBetterPlacement (kind : MemoryKind) (reserved attempts : Nat)
  | placementRejected (kind : MemoryKind)
  | placementImproved (kind : MemoryKind) (before after attempts : Nat)
  | unreachableRemoved (count : Nat)
  | compiled (nodes : Nat) (target : String) (rounds : Nat)
  /-- A line for the user of the command. -/
  | notice (text : String)
  deriving DecidableEq, Repr

namespace Event

def level : Event → Level
  | regionRejected .. => .trace
  | applying .. | loweredToAccelerator _ | allocated .. => .debug
  | pipelineStopped _ | noBetterPlacement .. | placementRejected _ => .warn
  | _ => .info

def text : Event → String
  | applying pass rule node => s!"[{pass}] applying `{rule}` at `{node}`"
  | regionRejected rule id =>
    s!"rule `{rule}` matched at NodeId({id}) but the region is not self-contained"
  | passConverged pass applied removed =>
    s!"pass `{pass}` converged after {applied} rewrites ({removed} nodes removed)"
  | pipelineConverged rounds applied =>
    s!"pipeline converged after {rounds} rounds ({applied} rewrites)"
  | pipelineStopped rounds => s!"pipeline stopped after {rounds} rounds without converging"
  | loweredToAccelerator id => s!"lowered NodeId({id}) onto the accelerator"
  | allocated node kind block pinned =>
    s!"`{node}` -> {kind.name} Allocation \x7b offset: {block.offset}, size: {block.size} \x7d" ++
      if pinned then " (pinned)" else ""
  | memoryUsed kind reserved peakLive =>
    s!"{kind.name} memory: {reserved} bytes reserved, {peakLive} bytes peak live"
  | noBetterPlacement kind reserved attempts =>
    s!"{kind.name} memory: no better placement than {reserved} bytes after {attempts} attempts"
  | placementRejected kind => s!"rejecting invalid placement for {kind.name} memory"
  | placementImproved kind before after attempts =>
    s!"{kind.name} memory: re-placement lowered usage from {before} to {after} bytes " ++
      s!"after {attempts} attempts"
  | unreachableRemoved count => s!"removed {count} unreachable nodes before compiling"
  | compiled nodes target rounds => s!"compiled {nodes} nodes for `{target}` in {rounds} rounds"
  | notice text => text

/-- The line under which an event is reported. -/
def line (event : Event) : String :=
  event.level.name ++ " " ++ event.text

/-- Whether an event is shown to the user of the command. -/
def isReported (event : Event) : Bool :=
  match event.level with
  | .info | .warn => true
  | .trace | .debug => false

end Event

/-- The events so far. -/
abbrev Journal := Array Event

/-- A computation that records events, also when it fails in the end. -/
abbrev Recorded := EStateM Failure Journal

/-- Record an event. -/
def Recorded.note (event : Event) : Recorded Unit :=
  modify (·.push event)

end TensorCompiler
