namespace TensorCompiler
namespace Text

/-!
# Decimal digits
-/

/-- The number spelled by a list of decimal digits. -/
def digitsValue (digits : List Char) : Nat :=
  digits.foldl (fun n c => 10 * n + (c.toNat - '0'.toNat)) 0

/-- Read a number that is at most `bound`: digits, after a plus sign or not. -/
def readNatural? (bound : Nat) (text : List Char) : Option Nat :=
  let digits := match text with
    | '+' :: rest => rest
    | _ => text
  if digits.isEmpty || !digits.all Char.isDigit || bound < digitsValue digits then none
  else some (digitsValue digits)

end Text
end TensorCompiler
