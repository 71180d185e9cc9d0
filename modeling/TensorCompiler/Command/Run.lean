import TensorCompiler.Command.Arguments
import TensorCompiler.Compile
import TensorCompiler.Graph.Drawing
import TensorCompiler.Script.Import
import TensorCompiler.Text.Quoted

namespace TensorCompiler
namespace Command

/-!
# Running the command

The command reads a script, compiles it, and writes the schedule and a drawing
of the graph if asked to.  It reaches files only through the two functions it
is given, so the same code runs on the files of a machine and on a directory
held in memory.  The shuffles that packing has time for are given to it as well.
-/

/-- How to reach files.  A file that cannot be reached is refused with a
message. -/
structure FileAccess (m : Type → Type) where
  read : String → m (Except String (List UInt8))
  write : String → List UInt8 → m (Except String Unit)

/-- How the command ended, and what it reported meanwhile. -/
structure Report where
  code : Nat
  lines : List String := []
  error : Option String := none
  deriving DecidableEq, Repr

/-- Arguments that make no sense. -/
def Report.misuse : Report :=
  { code := 2 }

/-- The lines to show of a journal. -/
def shownLines (journal : Journal) : List String :=
  (journal.toList.filter Event.isReported).map Event.line

/-- The report on a failure. -/
def Report.ofFailure (journal : Journal) : Failure → Report
  | .refused error => { code := 1, lines := shownLines journal, error := some error.message }
  | .aborted _ => { code := 101, lines := shownLines journal }

/-- The target that a request asks for. -/
def Request.target (request : Request) : Target :=
  match request.machine.getD .cpu with
  | .cpu => .cpu
  | .accel =>
    .accelerated (request.scratchpad.getD Target.defaultScratchpad) Target.defaultQuantization

/-- The options that a request asks for. -/
def Request.options (request : Request) (shuffles : Schedule.Shuffles) : CompileOptions :=
  let defaults : CompileOptions := {}
  { defaults with
    maxRounds := request.maxRounds.getD defaults.maxRounds
    packBudget := request.packMilliseconds.map (· * 1000000)
    verify := request.verify || defaults.verify
    shuffles := shuffles }

/-- The lines that sum a compilation up. -/
def summary (compiled : Compiled) : List Event :=
  let passes := compiled.stats.applied.map fun (name, count) =>
    Event.notice s!"  {name}: {count} rewrites"
  let kinds := (MemoryKind.all.filter fun kind => 0 < compiled.schedule.highWater.get kind).map
    fun kind =>
      let used := compiled.schedule.highWater.get kind
      let peak := compiled.schedule.peakLive.get kind
      Event.notice s!"  {kind.name}: {used} bytes ({peak} peak live)"
  Event.notice "Compiled" :: passes ++ kinds

/-- Read a script and compile it. -/
def compileScript (request : Request) (shuffles : Schedule.Shuffles) (bytes : List UInt8) :
    Work Compiled := do
  let g ← Graph.ofScript bytes
  modify fun bench => { bench with graph := g }
  Work.note [.notice s!"Loaded {g.size} nodes"]
  let compiled ← compile request.target (request.options shuffles)
  Work.note (summary compiled)
  return compiled

/-! ## Writing results -/

variable {m : Type → Type} [Monad m]

/-- Write files in order and report each, until one cannot be written.  Each
comes with its path, its content and what it holds. -/
def writeAll (files : FileAccess m) :
    List (String × List UInt8 × String) → (journal : Journal) → m Report
  | [], journal => return { code := 0, lines := shownLines journal }
  | (path, content, label) :: rest, journal => do
    match ← files.write path content with
    | .ok () => writeAll files rest (journal.push (.notice s!"Wrote {label} to {Text.quoted path}"))
    | .error message => return { code := 1, lines := shownLines journal, error := some message }

/-- The files that a request asks for. -/
def results (request : Request) (compiled : Compiled) (g : Graph) :
    List (String × List UInt8 × String) :=
  (request.out.map fun path => (path, compiled.schedule.encode, "schedule")).toList ++
    (request.drawing.map fun path => (path, g.drawing.toUTF8.toList, "graph")).toList

/-- Carry out a request for an input. -/
def carryOut (files : FileAccess m) (request : Request) (shuffles : Schedule.Shuffles)
    (input : String) : m Report := do
  match ← files.read input with
  | .error message => return { code := 1, error := some message }
  | .ok bytes =>
    match compileScript request shuffles bytes { graph := {} } with
    | .error failure bench => return .ofFailure bench.journal failure
    | .ok compiled bench => writeAll files (results request compiled bench.graph) bench.journal

/-- Run the command. -/
def run (files : FileAccess m) (arguments : List String)
    (shuffles : Schedule.Shuffles := Schedule.noShuffles) : m Report :=
  match read arguments with
  | .misuse => return .misuse
  | .help => return { code := 0 }
  | .request request =>
    match request.input with
    | none => return .misuse
    | some input => carryOut files request shuffles input

end Command
end TensorCompiler
