import TensorCompiler.Memory.FreeSpace
import TensorCompiler.Tensor

namespace TensorCompiler

/-!
# Allocators

An allocator serves buffers of one memory kind.  How many bytes a tensor takes
is the only thing that differs between targets, which may bring rules of their
own.
-/

/-- How many bytes are reserved for a tensor.  A rule may come to a size that is
not a word, but it cannot refuse a tensor. -/
structure SizeRule where
  bytes : TensorType → Checked Nat
  refusesNothing : ∀ type, (bytes type).RefusesNothing

namespace SizeRule

/-- Elements side by side. -/
def dense : SizeRule where
  bytes type := type.bytes
  refusesNothing type := type.refusesNothing_bytes

/-- Elements side by side, and the whole padded to a multiple of a unit. -/
def aligned (unit : Nat) : SizeRule where
  bytes type := do Word.roundUp (← type.bytes) unit
  refusesNothing type := type.refusesNothing_bytes.bind fun _ => Word.refusesNothing_roundUp _ unit

/-- Each innermost row padded to a whole number of tiles. -/
def tiled (tile : Nat) : SizeRule where
  bytes type :=
    match type.shape.getLast? with
    | none => Word.roundUp type.dtype.size tile
    | some inner => do
      let row ← Word.roundUp (← Word.mul inner type.dtype.size) tile
      Word.mul (← Word.product type.shape.dropLast) row
  refusesNothing type := by
    split
    · exact Word.refusesNothing_roundUp _ tile
    · refine (Word.refusesNothing_mul _ _).bind fun _ => ?_
      refine (Word.refusesNothing_roundUp _ tile).bind fun row => ?_
      exact (Word.refusesNothing_product _).bind fun count => Word.refusesNothing_mul count row

end SizeRule

/-- The state of one memory. -/
structure Allocator where
  kind : MemoryKind
  rule : SizeRule
  space : FreeSpace
  /-- The bytes given out at present. -/
  live : Nat := 0
  /-- The most bytes that were ever given out at the same time. -/
  peakLive : Nat := 0

namespace Allocator

/-- An allocator with nothing given out. -/
def new (kind : MemoryKind) (capacity : Option Nat) (rule : SizeRule) : Allocator :=
  { kind := kind, rule := rule, space := .ofCapacity capacity }

def capacity (allocator : Allocator) : Option Nat :=
  allocator.space.capacity

def highWater (allocator : Allocator) : Nat :=
  allocator.space.highWater

/-- The number of bytes that a tensor would take. -/
def sizeOf (allocator : Allocator) (type : TensorType) : Checked Nat :=
  allocator.rule.bytes type

/-- Reserve space for a tensor, or nothing if the memory is full. -/
def allocate (allocator : Allocator) (type : TensorType) :
    Checked (Option (Block × Allocator)) := do
  match allocator.space.allocate (← allocator.sizeOf type) with
  | none => return none
  | some (block, space) =>
    let live ← Word.add allocator.live block.size
    return some (block, { allocator with
      space := space, live := live, peakLive := max allocator.peakLive live })

/-- Take a block back. -/
def release (allocator : Allocator) (block : Block) : Checked Allocator := do
  let live ← Word.sub allocator.live block.size
  return { allocator with live := live, space := ← allocator.space.release block }

end Allocator

/-- The allocator of each memory kind that a target has. -/
abbrev Allocators := PerKind (Option Allocator)

namespace Allocators

/-- Unbounded memories of every kind, without padding. -/
def dense : Allocators :=
  .tabulate fun kind => some (.new kind none .dense)

/-- The capacity of every kind that has a fixed one. -/
def capacities (allocators : Allocators) : PerKind (Option Nat) :=
  .tabulate fun kind => (allocators.get kind).bind Allocator.capacity

end Allocators

end TensorCompiler
