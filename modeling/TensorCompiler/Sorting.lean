namespace TensorCompiler

/-!
# Stable sorting
-/

variable {α : Type}

/-- Put an element into a sorted list, before the elements it equals. -/
def insertBy (less : α → α → Bool) (x : α) : List α → List α
  | [] => [x]
  | y :: rest => if less y x then y :: insertBy less x rest else x :: y :: rest

/-- Sort a list, keeping elements that are equal in their order. -/
def sortBy (less : α → α → Bool) (xs : List α) : List α :=
  xs.foldr (insertBy less) []

theorem insertBy_perm (less : α → α → Bool) (x : α) (xs : List α) :
    (insertBy less x xs).Perm (x :: xs) := by
  induction xs with
  | nil => exact .refl _
  | cons y rest ih =>
    unfold insertBy
    split
    · exact (ih.cons y).trans (.swap x y rest)
    · exact .refl _

theorem sortBy_perm (less : α → α → Bool) (xs : List α) : (sortBy less xs).Perm xs := by
  induction xs with
  | nil => exact .refl _
  | cons x rest ih => exact (insertBy_perm less x _).trans (ih.cons x)

end TensorCompiler
