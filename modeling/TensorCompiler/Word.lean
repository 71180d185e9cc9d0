import TensorCompiler.Failure

namespace TensorCompiler
namespace Word

/-!
# Word arithmetic

Sizes, offsets and steps are 64-bit words.  They are computed as natural
numbers, and an operation whose result is not a word aborts, so no result is
ever taken modulo the word size.
-/

/-- The largest word. -/
def largest : Nat :=
  0xffffffffffffffff

/-- Accept a number that is a word. -/
def check (n : Nat) : Checked Nat :=
  if n ≤ largest then .ok n else abort .overflow

def add (first second : Nat) : Checked Nat :=
  check (first + second)

def mul (first second : Nat) : Checked Nat :=
  check (first * second)

def sub (first second : Nat) : Checked Nat :=
  if second ≤ first then .ok (first - second) else abort .overflow

/-- The product of a list, multiplied up from the left.  Every partial product
has to be a word, even when a later factor is zero. -/
def product (factors : List Nat) : Checked Nat :=
  factors.foldlM mul 1

/-- The least multiple of `unit` that is not below `n`. -/
def roundUp (n unit : Nat) : Checked Nat :=
  if unit = 0 then abort .zeroAlignment
  else if n % unit = 0 then .ok n
  else add n (unit - n % unit)

/-! ## An operation may abort, but it refuses nothing -/

open Checked

theorem refusesNothing_check (n : Nat) : (check n).RefusesNothing := by
  unfold check
  split
  · exact .ok n
  · exact .abort .overflow

theorem refusesNothing_add (first second : Nat) : (add first second).RefusesNothing :=
  refusesNothing_check _

theorem refusesNothing_mul (first second : Nat) : (mul first second).RefusesNothing :=
  refusesNothing_check _

theorem refusesNothing_sub (first second : Nat) : (sub first second).RefusesNothing := by
  unfold sub
  split
  · exact .ok _
  · exact .abort .overflow

theorem refusesNothing_foldlM_mul (start : Nat) (factors : List Nat) :
    (factors.foldlM mul start).RefusesNothing := by
  induction factors generalizing start with
  | nil => exact .ok start
  | cons factor rest inductionHypothesis =>
      exact (refusesNothing_mul start factor).bind inductionHypothesis

theorem refusesNothing_product (factors : List Nat) : (product factors).RefusesNothing :=
  refusesNothing_foldlM_mul 1 factors

theorem refusesNothing_roundUp (n unit : Nat) : (roundUp n unit).RefusesNothing := by
  unfold roundUp
  split
  · exact .abort .zeroAlignment
  · split
    · exact .ok n
    · exact refusesNothing_add _ _

end Word
end TensorCompiler
