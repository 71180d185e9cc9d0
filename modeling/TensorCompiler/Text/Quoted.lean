import TensorCompiler.Text.Standalone

namespace TensorCompiler
namespace Text

/-!
# Quoted text

Text is put between double quotation marks in such a way that every character
of it can be seen.  Some characters have a letter that stands for them after a
backslash, the others that cannot be shown are written by their code points.
-/

/-- The characters that are written with a backslash, by code point, and what
follows the backslash: the quotation mark, the backslash and some controls. -/
def backslashed : List (Nat × Char) :=
  [(0x00, '0'), (0x09, 't'), (0x0a, 'n'), (0x0d, 'r'), (0x22, Char.ofNat 0x22),
    (0x5c, Char.ofNat 0x5c)]

/-- A character as it stands between quotation marks. -/
def quotedChar (c : Char) : List Char :=
  match backslashed.lookup c.toNat with
  | some follower => [Char.ofNat 0x5c, follower]
  | none =>
    if standsAlone c then [c]
    else "\\u\x7b".toList ++ Nat.toDigits 16 c.toNat ++ "\x7d".toList

/-- Text between quotation marks. -/
def quoted (text : String) : String :=
  "\"" ++ String.ofList (text.toList.flatMap quotedChar) ++ "\""

end Text
end TensorCompiler
