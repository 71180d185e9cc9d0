import TensorCompiler.MemoryKind
import TensorCompiler.Operator

namespace TensorCompiler

/-!
# Failures

Two kinds of failure are kept apart.  An `Error` refuses a request that does
not fit the graph, the text or the memory it is made of, and the caller may go
on.  An `Abort` means that a computation left the numbers or the structure it
relies on: a word overflowed, an index was out of range, or the two directions
of a link disagreed.
-/

/-- What is wrong with a line of a script. -/
inductive LineFault where
  | missingName
  | missingOpcode
  | missingArgument
  | badIntegerList
  | badNumber
  | badDataType
  | strideLength
  | paddingLength
  | halfPrecisionFill
  | unknownFlag
  deriving DecidableEq, Repr

def LineFault.message : LineFault → String
  | missingName => "missing name"
  | missingOpcode => "missing opcode"
  | missingArgument => "missing argument"
  | badIntegerList => "bad integer list"
  | badNumber => "bad number"
  | badDataType => "bad data type"
  | strideLength => "stride must have 2 values"
  | paddingLength => "padding must have 2 values"
  | halfPrecisionFill => "f16 constants must be zero"
  | unknownFlag => "unknown flag"

/-- Why a request was refused. -/
inductive Error where
  | badNode
  | badIndex (index : Nat)
  | emptyGraph
  | alreadyConnected (consumer : String)
  | unconnected (consumer : String) (index : Nat)
  | wouldCycle (consumer producer : String)
  | shapeMismatch (first second : List Nat)
  | typeMismatch (context : String)
  | badPermutation (axes : List Nat)
  | badRank (rank : Nat)
  | badReshape (elements requested : Nat)
  | outOfMemory (kind : MemoryKind) (node : String) (requested capacity : Nat)
  | noAllocator (kind : MemoryKind) (node : String)
  | overlappingBuffers (first second : String) (kind : MemoryKind)
  | badReplacement (rule : String)
  | passDiverged (pass : String) (limit : Nat)
  | unsupported (node : String) (opcode : Opcode) (target : String)
  | unknownOpcode (word : String)
  | unknownValue (word : String)
  | badLine (line : Nat) (fault : LineFault)
  | emptyText
  | undecodableText
  deriving DecidableEq, Repr

/-- The wording of each refusal. -/
def Error.message : Error → String
  | badNode => "node is not present in this `Graph`"
  | badIndex index => s!"port index {index} is out of range for its node"
  | emptyGraph => "`Graph` has no declared outputs"
  | alreadyConnected consumer =>
    s!"input port of `{consumer}` is already connected; disconnect it first"
  | unconnected consumer index => s!"input port {index} of `{consumer}` is not connected"
  | wouldCycle consumer producer =>
    s!"connecting `{consumer}` to `{producer}` would introduce a cycle"
  | shapeMismatch first second =>
    "shape mismatch: " ++ Operator.listText first ++ " vs " ++ Operator.listText second
  | typeMismatch context => s!"type mismatch in `{context}`"
  | badPermutation axes => "invalid permutation " ++ Operator.listText axes
  | badRank rank => s!"rank {rank} is unsupported here"
  | badReshape elements requested =>
    s!"cannot reshape {elements} elements into {requested} elements"
  | outOfMemory kind node requested capacity =>
    s!"out of {kind.name} memory while allocating {requested} bytes for `{node}` " ++
      s!"(capacity {capacity})"
  | noAllocator kind node => s!"no allocator for {kind.name} memory, needed by `{node}`"
  | overlappingBuffers first second kind =>
    s!"live buffers `{first}` and `{second}` overlap in {kind.name} memory"
  | badReplacement rule => s!"rule `{rule}` produced an invalid replacement"
  | passDiverged pass limit => s!"pass `{pass}` did not converge after {limit} rewrites"
  | unsupported node opcode target =>
    s!"`{node}` ({opcode.name}) is not supported by target `{target}`"
  | unknownOpcode word => s!"unknown opcode {word}"
  | unknownValue word => s!"unknown value {word}"
  | badLine line fault => s!"parse error on line {line}: {fault.message}"
  | emptyText => "empty file"
  | undecodableText => "io error: stream did not contain valid UTF-8"

/-- Why a computation could not go on. -/
inductive Abort where
  /-- A number left the range of a 64-bit word. -/
  | overflow
  /-- A size was to be rounded up to a multiple of zero. -/
  | zeroAlignment
  /-- A list was read beyond its end. -/
  | outOfRange
  /-- A tensor was given more dimensions than the format allows. -/
  | rankTooLarge
  /-- A connected input was missing from its producer's readers. -/
  | brokenLink
  /-- Bytes were returned that were free already. -/
  | doubleFree
  deriving DecidableEq, Repr

/-- A refusal or an abort. -/
inductive Failure where
  | refused (error : Error)
  | aborted (abort : Abort)
  deriving DecidableEq, Repr

/-- A computation that may fail, without state. -/
abbrev Checked := Except Failure

/-- Refuse a request. -/
def refuse {m : Type → Type} [MonadExceptOf Failure m] {α : Type} (error : Error) : m α :=
  throw (.refused error)

/-- Give up a computation. -/
def abort {m : Type → Type} [MonadExceptOf Failure m] {α : Type} (cause : Abort) : m α :=
  throw (.aborted cause)

/-- A computation refuses nothing: where it gives no result, it was given up. -/
def Checked.RefusesNothing {α : Type} (run : Checked α) : Prop :=
  ∀ error, run ≠ .error (.refused error)

namespace Checked.RefusesNothing

variable {α β : Type}

theorem ok (value : α) : RefusesNothing (.ok value) := by
  intro error impossible
  cases impossible

theorem abort (cause : Abort) : RefusesNothing (abort cause : Checked α) := by
  intro error impossible
  cases impossible

theorem bind {first : Checked α} {next : α → Checked β} (here : first.RefusesNothing)
    (later : ∀ value, (next value).RefusesNothing) : (first >>= next).RefusesNothing := by
  cases first with
  | ok value => exact later value
  | error failure =>
      intro error refused
      exact here error (congrArg Except.error (Except.error.inj refused))

end Checked.RefusesNothing

/-- A computation without state runs in any state and leaves it as it was. -/
instance (σ : Type) : MonadLift Checked (EStateM Failure σ) where
  monadLift
    | .ok value => fun state => .ok value state
    | .error failure => fun state => .error failure state

end TensorCompiler
