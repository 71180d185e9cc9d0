import TensorCompiler.Command.Run

/-!
# The command line
-/

namespace TensorCompiler
namespace Command

/-- A description of the command. -/
def usage : String :=
  "Compiles a network in text format and reports its schedule\n\n" ++
  "  -i, --input <file>       input file\n" ++
  "  -t, --target <target>    cpu (default) or accel\n" ++
  "      --scratchpad <n>     accelerator scratchpad size, in bytes\n" ++
  "      --max-rounds <n>     maximum number of rounds through the pass list (16)\n" ++
  "      --optimize-ms <n>    time budget for buffer re-placement, in milliseconds\n" ++
  "      --verify             check the schedule for overlapping buffers\n" ++
  "  -o, --out <file>         write the schedule into a file\n" ++
  "      --dot <file>         write a drawing of the graph into a file\n"

/-- The files of this machine. -/
def diskFiles : FileAccess IO where
  read path := do
    match ← (IO.FS.readBinFile path).toBaseIO with
    | .ok content => return .ok content.toList
    | .error error => return .error (toString error)
  write path content := do
    match ← (IO.FS.writeBinFile path ⟨content.toArray⟩).toBaseIO with
    | .ok () => return .ok ()
    | .error error => return .error (toString error)

end Command
end TensorCompiler

open TensorCompiler in
def main (arguments : List String) : IO UInt32 := do
  if Command.read arguments = .help then IO.print Command.usage
  let report ← Command.run Command.diskFiles arguments
  for line in report.lines do IO.eprintln line
  if report.code = 2 then IO.eprint Command.usage
  if let some error := report.error then IO.eprintln s!"Error: {error}"
  return UInt32.ofNat report.code
