import Mathlib.Algebra.BigOperators.Group.List.Basic
import TensorCompiler.Proofs.Failing
import TensorCompiler.Word

namespace TensorCompiler
namespace Word

/-!
# Words

The operations on words give the number that the operation on numbers gives, as long as
it is a word.  Otherwise they abort.  A product of a list is multiplied up step by step,
so it aborts even if only some of the factors make too large a number and the next one
is zero.
-/

theorem check_eq_ok {n result : Nat} : check n = .ok result ↔ n = result ∧ result ≤ largest := by
  unfold check
  split
  · next fits =>
    rw [Except.ok.injEq]
    constructor
    · rintro rfl
      exact ⟨rfl, fits⟩
    · exact And.left
  · next exceeds =>
    constructor
    · intro impossible
      exact absurd impossible Checked.abort_ne_ok
    · rintro ⟨rfl, fits⟩
      exact absurd fits exceeds

theorem add_eq_ok {first second result : Nat} :
    add first second = .ok result ↔ first + second = result ∧ result ≤ largest :=
  check_eq_ok

theorem mul_eq_ok {first second result : Nat} :
    mul first second = .ok result ↔ first * second = result ∧ result ≤ largest :=
  check_eq_ok

theorem sub_eq_ok {first second result : Nat} :
    sub first second = .ok result ↔ first = result + second := by
  unfold sub
  split
  · next fits =>
    rw [Except.ok.injEq]
    omega
  · next exceeds =>
    constructor
    · intro impossible
      exact absurd impossible Checked.abort_ne_ok
    · intro same
      omega

theorem prod_of_foldlM {factors : List Nat} {start result : Nat}
    (done : factors.foldlM mul start = .ok result) : start * factors.prod = result := by
  induction factors generalizing start with
  | nil =>
      rw [List.prod_nil, Nat.mul_one]
      exact Except.ok.inj done
  | cons factor rest inductionHypothesis =>
      rcases Checked.bind_eq_ok.mp done with ⟨next, multiplied, done⟩
      rcases mul_eq_ok.mp multiplied with ⟨rfl, _⟩
      rw [List.prod_cons, ← Nat.mul_assoc]
      exact inductionHypothesis done

theorem prod_of_product {factors : List Nat} {result : Nat} (done : product factors = .ok result) :
    factors.prod = result := by
  rw [← prod_of_foldlM done, Nat.one_mul]

/-! ## Overflows -/

variable {large : Prop}

@[simp] theorem failsOnly_check {n : Nat} :
    (check n).FailsOnly (Failure.Excused large) ↔ (largest < n → large) := by
  simp [check]

/-- Some of the factors, from the first one on, have a product that is no word. -/
def Outgrows (factors : List Nat) : Prop :=
  ∃ count, largest < (factors.take count).prod

theorem failsOnly_foldlM {start : Nat} {factors : List Nat}
    (outgrown : ∀ count, largest < start * (factors.take count).prod → large) :
    (factors.foldlM mul start).FailsOnly (Failure.Excused large) := by
  induction factors generalizing start with
  | nil => exact Checked.failsOnly_pure start
  | cons factor rest inductionHypothesis =>
      -- The first step makes the product of one factor; the later ones start from it.
      rw [List.foldlM_cons, Checked.failsOnly_bind]
      constructor
      · rw [mul, failsOnly_check]
        intro here
        apply outgrown 1
        rwa [List.take_succ_cons, List.take_zero, List.prod_singleton]
      · intro next multiplied
        rcases mul_eq_ok.mp multiplied with ⟨rfl, _⟩
        apply inductionHypothesis
        intro count later
        apply outgrown (count + 1)
        rwa [List.take_succ_cons, List.prod_cons, ← Nat.mul_assoc]

theorem failsOnly_product (factors : List Nat) :
    (product factors).FailsOnly (Failure.Excused (Outgrows factors)) := by
  apply failsOnly_foldlM
  intro count outgrown
  rw [Nat.one_mul] at outgrown
  exact ⟨count, outgrown⟩

end Word
end TensorCompiler
