namespace TensorCompiler
namespace Text

/-!
# Decoding UTF-8

A character takes one to four bytes.  Only the shortest form of a character is
accepted, and no surrogates.
-/

/-- The payload of a continuation byte. -/
def continuation? (b : UInt8) : Option Nat :=
  if 0x80 ≤ b.toNat ∧ b.toNat < 0xc0 then some (b.toNat - 0x80) else none

/-- The character of a code point, if it has one and is not below `least`. -/
def scalar? (least code : Nat) : Option Char :=
  if least ≤ code ∧ code.isValidChar then some (Char.ofNat code) else none

/-- The first character of some bytes that lead with a byte other than ASCII,
and the number of bytes that follow the leading one. -/
def multibyte? (lead : UInt8) (rest : List UInt8) : Option (Char × Nat) := do
  if 0xc0 ≤ lead.toNat ∧ lead.toNat < 0xe0 then
    let b1 ← continuation? (← rest[0]?)
    return (← scalar? 0x80 ((lead.toNat - 0xc0) * 0x40 + b1), 1)
  else if 0xe0 ≤ lead.toNat ∧ lead.toNat < 0xf0 then
    let b1 ← continuation? (← rest[0]?)
    let b2 ← continuation? (← rest[1]?)
    return (← scalar? 0x800 ((lead.toNat - 0xe0) * 0x1000 + b1 * 0x40 + b2), 2)
  else if 0xf0 ≤ lead.toNat ∧ lead.toNat < 0xf8 then
    let b1 ← continuation? (← rest[0]?)
    let b2 ← continuation? (← rest[1]?)
    let b3 ← continuation? (← rest[2]?)
    return (← scalar? 0x10000 ((lead.toNat - 0xf0) * 0x40000 + b1 * 0x1000 + b2 * 0x40 + b3), 3)
  else none

/-- Decode some bytes, after passing over the given number of them. -/
def decodeAfter : (skip : Nat) → List UInt8 → Option (List Char)
  | _, [] => some []
  | skip + 1, _ :: rest => decodeAfter skip rest
  | 0, lead :: rest =>
    if lead.toNat < 0x80 then (decodeAfter 0 rest).map (Char.ofNat lead.toNat :: ·)
    else do
      let (char, length) ← multibyte? lead rest
      return char :: (← decodeAfter length rest)

/-- The characters that some bytes encode. -/
def decode? (bytes : List UInt8) : Option (List Char) :=
  decodeAfter 0 bytes

end Text
end TensorCompiler
