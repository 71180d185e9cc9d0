import TensorCompiler.Journal
import TensorCompiler.Schedule.Conflict

namespace TensorCompiler
namespace Schedule

/-!
# Packing scratch memory anew

While a graph is scheduled only the buffers alive at that moment are known, so
first fit leaves holes.  With all lifetimes known, the buffers of a scratch
memory can be placed once more: one after the other, each at the lowest offset
that is free of those placed before it and alive with it.

Two orders are always tried, the largest buffers first and the longest-lived
first.  Then the order is shuffled and tried again, as often as there is time.
The best result is kept if it beats the present placement.

How often there is time, and what the shuffles are, is not for this program to
say: the one depends on a clock and the other on a generator of random numbers.
Both are given to it as the list of the shuffles.
-/

/-- A buffer with its position among the buffers of its kind. -/
abbrev Candidate := Buffer × Nat

/-- Spans by start, then by end. -/
def spanBefore (first second : Span) : Bool :=
  decide (first.start < second.start ∨
    (first.start = second.start ∧ first.stop < second.stop))

/-- The lowest offset, from the given one on, at which `size` bytes do not meet
the spans, which are given by increasing start. -/
def lowestGap (size : Nat) : (offset : Nat) → (blocked : List Span) → Checked Nat
  | offset, [] => return offset
  | offset, span :: rest => do
    if (← Word.add offset size) ≤ span.start then return offset
    else lowestGap size (max offset span.stop) rest

/-- The bytes taken by those placed buffers that live together with a given
one. -/
def blockedSpans (placed : List Candidate) (buffer : Buffer) : Checked (List Span) :=
  (placed.filter fun other => other.1.lifetimesMeet buffer).mapM fun other => do
    return ⟨other.1.block.offset, ← other.1.block.stop⟩

/-- Place buffers in the given order.  The result holds them with their new
offsets, and the end of the highest. -/
def placeAll : (order placed : List Candidate) → (high : Nat) →
    Checked (List Candidate × Nat)
  | [], placed, high => return (placed, high)
  | (buffer, index) :: rest, placed, high => do
    let blocked ← blockedSpans placed buffer
    let offset ← lowestGap buffer.block.size 0 (sortBy spanBefore blocked)
    let stop ← Word.add offset buffer.block.size
    let moved := { buffer with block := ⟨offset, buffer.block.size⟩ }
    placeAll rest (placed ++ [(moved, index)]) (max high stop)

/-- Place buffers in the given order, starting from an empty memory. -/
def place (order : List Candidate) : Checked (List Candidate × Nat) :=
  placeAll order [] 0

/-! ## The orders -/

/-- Larger buffers first, then earlier ones. -/
def largestFirst (buffers : List Candidate) : List Candidate :=
  sortBy (fun first second => decide (second.1.block.size < first.1.block.size ∨
    (second.1.block.size = first.1.block.size ∧ first.1.first < second.1.first))) buffers

/-- Longer-lived buffers first, then earlier ones. -/
def longestFirst (buffers : List Candidate) : Checked (List Candidate) := do
  let keyed ← buffers.mapM fun candidate => do
    return (← Word.sub candidate.1.last candidate.1.first, candidate)
  let sorted := sortBy (fun first second => decide (second.1 < first.1 ∨
    (second.1 = first.1 ∧ first.2.1.first < second.2.1.first))) keyed
  return sorted.map Prod.snd

/-- A way to put buffers into another order. -/
structure Shuffle where
  rearrange : List Candidate → List Candidate
  perm : ∀ order, (rearrange order).Perm order

/-- The orders that shuffling one order again and again leads to. -/
def shuffled : List Shuffle → (order : List Candidate) → List (List Candidate)
  | [], _ => []
  | shuffle :: rest, order =>
    shuffle.rearrange order :: shuffled rest (shuffle.rearrange order)

/-- The number of orders tried. -/
def attempts (shuffles : List Shuffle) : Nat :=
  2 + shuffles.length

/-- The best of a placement and those in some orders; of equally high ones the
first. -/
def bestOf : (orders : List (List Candidate)) → (best : List Candidate × Nat) →
    Checked (List Candidate × Nat)
  | [], best => return best
  | order :: rest, best => do
    let next ← place order
    bestOf rest (if next.2 < best.2 then next else best)

/-- The best placement in the two orders and in those that the shuffles lead
to. -/
def bestPlacement (shuffles : List Shuffle) (buffers : List Buffer) :
    Checked (List Candidate × Nat) := do
  let bySize := largestFirst buffers.zipIdx
  let first ← place bySize
  let byLife ← longestFirst bySize
  bestOf (byLife :: shuffled shuffles byLife) first

/-- The placed buffers, back in their positions. -/
def inPositions (placed : List Candidate) : List Buffer :=
  (sortBy (fun first second => decide (first.2 < second.2)) placed).map Prod.fst

/-! ## Packing a schedule -/

/-- The shuffles that there is time for, memory by memory. -/
abbrev Shuffles := PerKind (List Shuffle)

/-- No time for anything but the two orders. -/
def noShuffles : Shuffles :=
  .tabulate fun _ => []

/-- Try to lower the high-water mark of one kind.  The result is the schedule
with its buffers moved, if that was possible. -/
def packKind (capacities : PerKind (Option Nat)) (shuffles : Shuffles) (kind : MemoryKind)
    (buffers : List Buffer) (schedule : Schedule) : Recorded (Option Schedule) := do
  let present := schedule.highWater.get kind
  let (placed, high) ← bestPlacement (shuffles.get kind) buffers
  let fits := (capacities.get kind).all fun capacity => decide (high ≤ capacity)
  if present ≤ high ∨ !fits then
    Recorded.note (.noBetterPlacement kind present (attempts (shuffles.get kind)))
    return none
  else
    let moved := inPositions placed
    match ← findConflict moved with
    | some _ =>
      Recorded.note (.placementRejected kind)
      return none
    | none =>
      Recorded.note (.placementImproved kind present high (attempts (shuffles.get kind)))
      return some { schedule with
        buffers := moved.foldl (fun map buffer => map.insert buffer.outlet buffer)
          schedule.buffers }

/-- Try to lower the high-water marks of some kinds, given with their buffers.
The flag tells whether anything changed. -/
def packKinds (capacities : PerKind (Option Nat)) (shuffles : Shuffles) :
    List (MemoryKind × List Buffer) → Schedule → Recorded (Bool × Schedule)
  | [], schedule => return (false, schedule)
  | (kind, buffers) :: rest, schedule => do
    match ← packKind capacities shuffles kind buffers schedule with
    | some packed => return (true, (← packKinds capacities shuffles rest packed).2)
    | none => packKinds capacities shuffles rest schedule

/-- The scratch kinds with buffers that could be moved, in kind order. -/
def packable (schedule : Schedule) : List (MemoryKind × List Buffer) :=
  ((MemoryKind.all.filter fun kind => !kind.isPersistent).map fun kind =>
    (kind, schedule.buffersOf kind)).filter fun entry => decide (2 ≤ entry.2.length)

/-- Place the buffers of the scratch memories anew, within a budget of time.
No budget means no attempt; any other allows for the two orders, and for the
given shuffles.  The flag tells whether anything changed. -/
def pack (schedule : Schedule) (capacities : PerKind (Option Nat)) (budget : Nat)
    (shuffles : Shuffles := noShuffles) : Recorded (Bool × Schedule) := do
  if budget = 0 then return (false, schedule)
  else
    let (changed, packed) ← packKinds capacities shuffles schedule.packable schedule
    if changed then return (true, ← packed.withHighWater) else return (false, schedule)

end Schedule
end TensorCompiler
