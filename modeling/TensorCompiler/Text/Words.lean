namespace TensorCompiler
namespace Text

/-!
# Pieces and words
-/

/-- Cut a list at every separator.  There is one piece more than there are
separators, and pieces may be empty. -/
def splitWhere {α : Type} (isSeparator : α → Bool) (xs : List α) : List (List α) :=
  xs.foldr (fun x pieces =>
    if isSeparator x then [] :: pieces
    else match pieces with
      | piece :: rest => (x :: piece) :: rest
      | [] => [[x]]) [[]]

/-- The characters with the Unicode property `White_Space`. -/
def isBlank (c : Char) : Bool :=
  let code := c.toNat
  decide (0x09 ≤ code ∧ code ≤ 0x0d) || code == 0x20 || code == 0x85 || code == 0xa0 ||
    code == 0x1680 || decide (0x2000 ≤ code ∧ code ≤ 0x200a) || code == 0x2028 ||
    code == 0x2029 || code == 0x202f || code == 0x205f || code == 0x3000

/-- The maximal stretches of characters that are not blank. -/
def words (text : List Char) : List (List Char) :=
  (splitWhere isBlank text).filter fun word => !word.isEmpty

end Text
end TensorCompiler
