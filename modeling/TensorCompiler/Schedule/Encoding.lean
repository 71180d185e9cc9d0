import TensorCompiler.Bytes
import TensorCompiler.Schedule.Basic

namespace TensorCompiler

/-!
# Schedules as bytes

Sequences and tables are written as their entries, preceded by the number of
entries.  A reader takes what it needs from the front of the bytes and leaves
the rest.
-/

/-- Take a value from the front of some bytes. -/
abbrev ByteReader := StateT (List UInt8) Option

namespace ByteReader

def byte : ByteReader UInt8
  | [] => none
  | b :: rest => some (b, rest)

/-- A number in the given number of bytes. -/
def number : (width : Nat) → ByteReader Nat
  | 0 => return 0
  | width + 1 => do
    let low ← byte
    let high ← number width
    return low.toNat + 256 * high

def word : ByteReader Nat :=
  number 8

def flag : ByteReader Bool := do
  match (← byte).toNat with
  | 0 => return false
  | 1 => return true
  | _ => failure

variable {α : Type}

/-- The given number of entries. -/
def many (entry : ByteReader α) : (count : Nat) → ByteReader (List α)
  | 0 => return []
  | count + 1 => do
    let head ← entry
    let rest ← many entry count
    return head :: rest

/-- Entries preceded by their number. -/
def counted (entry : ByteReader α) : ByteReader (List α) := do
  many entry (← word)

end ByteReader

/-! ## Parts of a schedule -/

/-- The number that stands for a memory kind. -/
def MemoryKind.code : MemoryKind → Nat
  | input => 0
  | constant => 1
  | main => 2
  | accelerator => 3

def MemoryKind.ofCode? : Nat → Option MemoryKind
  | 0 => some input
  | 1 => some constant
  | 2 => some main
  | 3 => some accelerator
  | _ => none

def Outlet.encode (outlet : Outlet) : List UInt8 :=
  Bytes.word outlet.node ++ Bytes.word outlet.index

def Outlet.reader : ByteReader Outlet := do
  let node ← ByteReader.word
  let index ← ByteReader.word
  return ⟨node, index⟩

def MemoryKind.encode (kind : MemoryKind) : List UInt8 :=
  Bytes.number 4 kind.code

def MemoryKind.reader : ByteReader MemoryKind := do
  match ofCode? (← ByteReader.number 4) with
  | some kind => return kind
  | none => failure

def Buffer.encode (buffer : Buffer) : List UInt8 :=
  buffer.outlet.encode ++ buffer.kind.encode ++
    Bytes.word buffer.block.offset ++ Bytes.word buffer.block.size ++
    Bytes.word buffer.first ++ Bytes.word buffer.last ++ Bytes.flag buffer.pinned

def Buffer.reader : ByteReader Buffer := do
  let outlet ← Outlet.reader
  let kind ← MemoryKind.reader
  let offset ← ByteReader.word
  let size ← ByteReader.word
  let first ← ByteReader.word
  let last ← ByteReader.word
  let pinned ← ByteReader.flag
  return { outlet, kind, block := ⟨offset, size⟩, first, last, pinned }

def PerKind.encodeWords (table : PerKind Nat) : List UInt8 :=
  Bytes.word table.input ++ Bytes.word table.constant ++ Bytes.word table.main ++
    Bytes.word table.accelerator

def PerKind.wordsReader : ByteReader (PerKind Nat) := do
  let input ← ByteReader.word
  let constant ← ByteReader.word
  let main ← ByteReader.word
  let accelerator ← ByteReader.word
  return { input, constant, main, accelerator }

/-! ## Schedules -/

namespace Schedule

def encodeEntry (entry : Outlet × Buffer) : List UInt8 :=
  entry.1.encode ++ entry.2.encode

def entryReader : ByteReader (Outlet × Buffer) := do
  let outlet ← Outlet.reader
  let buffer ← Buffer.reader
  return (outlet, buffer)

/-- The bytes that stand for a schedule. -/
def encode (schedule : Schedule) : List UInt8 :=
  Bytes.counted Bytes.word schedule.sequence ++
    Bytes.counted encodeEntry schedule.buffers.entries ++
    schedule.highWater.encodeWords ++ schedule.peakLive.encodeWords

def reader : ByteReader Schedule := do
  let sequence ← ByteReader.counted ByteReader.word
  let entries ← ByteReader.counted entryReader
  let highWater ← PerKind.wordsReader
  let peakLive ← PerKind.wordsReader
  return { sequence, buffers := .ofEntries entries, highWater, peakLive }

/-- The schedule that some bytes begin with. -/
def decode? (bytes : List UInt8) : Option Schedule :=
  (reader bytes).map Prod.fst

end Schedule

end TensorCompiler
