import TensorCompiler.Command.Run

namespace TensorCompiler
namespace Command

/-!
# A directory in memory

The command can be run without touching a disk, on a directory that has files
and no directories in it.
-/

/-- The files of a directory, by name. -/
structure Directory where
  files : List (String × List UInt8) := []
  deriving DecidableEq, Repr

namespace Directory

/-- What is said of a path that leads nowhere. -/
def notFound : String :=
  "No such file or directory (os error 2)"

/-- The name of the file at a path, if the path stays in the directory.  Steps
that are empty or a dot lead nowhere else, unless the path starts at the root. -/
def fileName? (path : String) : Option String := do
  let parts := Text.splitWhere (· == '/') path.toList
  let name ← parts.getLast?
  let steps := parts.dropLast
  if steps.head? = some [] ∨ steps.any (fun part => part ≠ [] ∧ part ≠ ['.']) then none
  else if name = [] ∨ name = ['.'] ∨ name = ['.', '.'] then none
  else return String.ofList name

def read? (directory : Directory) (path : String) : Option (List UInt8) := do
  directory.files.lookup (← fileName? path)

/-- Put a file at a path, in place of one that is there. -/
def write? (directory : Directory) (path : String) (content : List UInt8) : Option Directory := do
  let name ← fileName? path
  return ⟨(name, content) :: directory.files.filter fun file => file.1 != name⟩

/-- The files of a directory that is part of the state. -/
def access : FileAccess (StateM Directory) where
  read path := return match (← get).read? path with
    | some content => .ok content
    | none => .error notFound
  write path content := do
    match (← get).write? path content with
    | some changed =>
      set changed
      return .ok ()
    | none => return .error notFound

end Directory

end Command
end TensorCompiler
