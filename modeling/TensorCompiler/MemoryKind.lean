namespace TensorCompiler

/-!
# Memory kinds

Buffers live in one of four address spaces.  A table with an entry for each
kind is a record of four fields rather than a map, so looking a kind up cannot
fail.
-/

/-- An address space.  Inputs are provided from outside, constants are
materialized once; the other two are scratch memories. -/
inductive MemoryKind where
  | input
  | constant
  | main
  | accelerator
  deriving DecidableEq, Repr

namespace MemoryKind

/-- Every memory kind, in declaration order. -/
def all : List MemoryKind :=
  [input, constant, main, accelerator]

def name : MemoryKind → String
  | input => "input"
  | constant => "constant"
  | main => "main"
  | accelerator => "accelerator"

/-- The memory kind with a given name. -/
def ofName? (text : String) : Option MemoryKind :=
  all.find? (·.name == text)

/-- Buffers of a persistent kind stay allocated for the whole program. -/
def isPersistent : MemoryKind → Bool
  | input | constant => true
  | main | accelerator => false

end MemoryKind

/-- One entry for each memory kind. -/
structure PerKind (α : Type) where
  input : α
  constant : α
  main : α
  accelerator : α
  deriving DecidableEq, Repr

namespace PerKind

variable {α : Type}

/-- The table given by a function of the kind. -/
def tabulate (entry : MemoryKind → α) : PerKind α :=
  ⟨entry .input, entry .constant, entry .main, entry .accelerator⟩

def get (table : PerKind α) : MemoryKind → α
  | .input => table.input
  | .constant => table.constant
  | .main => table.main
  | .accelerator => table.accelerator

def set (table : PerKind α) (kind : MemoryKind) (entry : α) : PerKind α :=
  match kind with
  | .input => { table with input := entry }
  | .constant => { table with constant := entry }
  | .main => { table with main := entry }
  | .accelerator => { table with accelerator := entry }

@[simp] theorem get_tabulate (entry : MemoryKind → α) (kind : MemoryKind) :
    (tabulate entry).get kind = entry kind := by
  cases kind <;> rfl

theorem get_set (table : PerKind α) (kind other : MemoryKind) (entry : α) :
    (table.set kind entry).get other = if other = kind then entry else table.get other := by
  cases kind <;> cases other <;> rfl

end PerKind

end TensorCompiler
