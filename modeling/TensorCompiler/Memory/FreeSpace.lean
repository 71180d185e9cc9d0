import TensorCompiler.Word

namespace TensorCompiler

/-!
# Free space

A memory of one kind is an address space of bytes.  Its free space is kept as
the spans of bytes not given out, in address order; spans that touch are
merged.  A request is served from the lowest span that is long enough.
-/

/-- Bytes given out: `size` of them from `offset` on. -/
structure Block where
  offset : Nat
  size : Nat
  deriving DecidableEq, Repr

namespace Block

/-- The address after the last byte. -/
def stop (block : Block) : Checked Nat :=
  Word.add block.offset block.size

/-- Whether two blocks share a byte.  An address is computed only if the
answer still depends on it. -/
def overlaps (first second : Block) : Checked Bool := do
  if first.size = 0 ∨ second.size = 0 then return false
  else if first.offset < (← second.stop) then return decide (second.offset < (← first.stop))
  else return false

/-- Blocks are ordered by offset, then by size. -/
instance : LT Block :=
  ⟨fun first second => first.offset < second.offset ∨
    (first.offset = second.offset ∧ first.size < second.size)⟩

instance (first second : Block) : Decidable (first < second) :=
  inferInstanceAs (Decidable (_ ∨ _))

end Block

/-- Free bytes: those from `start` on, before `stop`. -/
structure Span where
  start : Nat
  stop : Nat
  deriving DecidableEq, Repr

def Span.length (span : Span) : Nat :=
  span.stop - span.start

/-- The free part of an address space. -/
structure FreeSpace where
  /-- The free spans, in address order. -/
  spans : List Span
  /-- The size of the address space, if it was fixed. -/
  capacity : Option Nat
  /-- The highest address that any block given out so far ended at. -/
  highWater : Nat
  deriving DecidableEq, Repr

namespace FreeSpace

/-- An address space with nothing given out.  Without a fixed size it is as
large as a word can tell. -/
def ofCapacity (capacity : Option Nat) : FreeSpace where
  spans := if capacity.getD Word.largest = 0 then [] else [⟨0, capacity.getD Word.largest⟩]
  capacity := capacity
  highWater := 0

/-- Cut `size` bytes off the start of the first span that has them.  The
result is their offset and what remains. -/
def cut (size : Nat) : List Span → Option (Nat × List Span)
  | [] => none
  | span :: rest =>
    if size ≤ span.length then
      some (span.start,
        if size < span.length then ⟨span.start + size, span.stop⟩ :: rest else rest)
    else (cut size rest).map fun (offset, remaining) => (offset, span :: remaining)

/-- Give out a block, or nothing if no span is long enough.  Empty blocks are
given out at offset zero and take no space. -/
def allocate (space : FreeSpace) (size : Nat) : Option (Block × FreeSpace) :=
  if size = 0 then some (⟨0, 0⟩, space)
  else (cut size space.spans).map fun (offset, remaining) =>
    (⟨offset, size⟩,
      { space with spans := remaining, highWater := max space.highWater (offset + size) })

/-- Add a span before the spans that start no lower, merging it with the first
of them if they touch. -/
def putBefore (span : Span) : List Span → Checked (List Span)
  | [] => return [span]
  | next :: rest =>
    if next.start < span.stop then abort .doubleFree
    else if next.start = span.stop then return ⟨span.start, next.stop⟩ :: rest
    else return span :: next :: rest

/-- Add a span to spans in address order, merging it with its neighbours.  Only
the two neighbours are looked at to see that its bytes were not free. -/
def put (span : Span) (spans : List Span) : Checked (List Span) := do
  let below := spans.takeWhile (·.start < span.start)
  let above := spans.dropWhile (·.start < span.start)
  match below.getLast? with
  | none => putBefore span above
  | some previous =>
    if span.start < previous.stop then abort .doubleFree
    else if previous.stop = span.start then
      return below.dropLast ++ (← putBefore ⟨previous.start, span.stop⟩ above)
    else return below ++ (← putBefore span above)

/-- Take a block back. -/
def release (space : FreeSpace) (block : Block) : Checked FreeSpace := do
  if block.size = 0 then return space
  else
    let stop ← block.stop
    return { space with spans := ← put ⟨block.offset, stop⟩ space.spans }

end FreeSpace

end TensorCompiler
