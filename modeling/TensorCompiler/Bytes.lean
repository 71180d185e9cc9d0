namespace TensorCompiler
namespace Bytes

/-!
# Numbers as bytes

Numbers have a fixed width and are written least significant byte first.
-/

/-- A number in the given number of bytes.  What does not fit is dropped. -/
def number : (width : Nat) → Nat → List UInt8
  | 0, _ => []
  | width + 1, n => UInt8.ofNat n :: number width (n / 256)

/-- A number in eight bytes. -/
def word (n : Nat) : List UInt8 :=
  number 8 n

def flag (b : Bool) : List UInt8 :=
  [if b then 1 else 0]

/-- Entries one after the other, preceded by their number. -/
def counted {α : Type} (entry : α → List UInt8) (entries : List α) : List UInt8 :=
  word entries.length ++ entries.flatMap entry

end Bytes
end TensorCompiler
