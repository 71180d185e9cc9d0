import Mathlib.Algebra.BigOperators.Group.List.Basic
import Mathlib.Data.List.Forall2
import Mathlib.Data.List.GetD
import Mathlib.Data.List.Perm.Subperm
import TensorCompiler.Graph.Build
import TensorCompiler.Proofs.Words

namespace TensorCompiler

/-!
# Tensors in row-major order

A tensor value is a list of elements with dimensions.  The element at a
multi-index stands at the position that the indices spell in mixed radix, the
last one running fastest.  A transpose moves elements to the positions of their
reordered indices; a reshape leaves the list alone.

Two transposes in a row are the transpose by the composed axes, and the transpose
by the axes in their order is the identity.  Both come down to the fact that
reordering indices by a permutation can be undone.
-/

/-! ## Reordering by a permutation -/

namespace Axes

open TensorCompiler.Graph (isPermutation permuteDims)

variable {axes dims index first second : List Nat} {rank : Nat}

theorem eq_of_getD (lengths : first.length = second.length)
    (same : ∀ position < second.length, first.getD position 0 = second.getD position 0) :
    first = second := by
  apply List.ext_getElem lengths
  intro position inside insideSecond
  have here := same position insideSecond
  rwa [List.getD_eq_getElem _ _ inside, List.getD_eq_getElem _ _ insideSecond] at here

theorem isPermutation_iff :
    isPermutation axes rank = true ↔ axes.Perm (List.range rank) := by
  simp only [isPermutation, Bool.and_eq_true, beq_iff_eq, List.all_eq_true, decide_eq_true_eq]
  constructor
  · rintro ⟨⟨length, below⟩, distinct⟩
    have subset : axes ⊆ List.range rank := fun axis member =>
      List.mem_range.mpr (below axis member)
    apply (List.subperm_of_subset distinct subset).perm_of_length_le
    exact Nat.le_of_eq (by rw [List.length_range, length])
  · intro permutes
    refine ⟨⟨by rw [permutes.length_eq, List.length_range], ?_⟩, ?_⟩
    · intro axis member
      exact List.mem_range.mp (permutes.mem_iff.mp member)
    · exact permutes.nodup_iff.mpr List.nodup_range

@[simp] theorem length_permuteDims : (permuteDims axes dims).length = axes.length :=
  List.length_map _

theorem getD_permuteDims {position : Nat} (inside : position < axes.length) :
    (permuteDims axes dims).getD position 0 = dims.getD (axes.getD position 0) 0 := by
  simp [permuteDims, inside]

/-- The axes in their order move nothing. -/
theorem permuteDims_range (dims : List Nat) : permuteDims (List.range dims.length) dims = dims := by
  apply eq_of_getD (by simp)
  intro position inside
  rw [getD_permuteDims (by simpa using inside)]
  simp [inside]

/-- Undo a reordering: the inverse of `permuteDims`. -/
def restore (axes index : List Nat) : List Nat :=
  (List.range axes.length).map fun axis => index.getD (axes.idxOf axis) 0

@[simp] theorem length_restore : (restore axes index).length = axes.length := by
  simp [restore]

theorem getD_restore {axis : Nat} (inside : axis < axes.length) :
    (restore axes index).getD axis 0 = index.getD (axes.idxOf axis) 0 := by
  simp [restore, inside]

section

variable (permutes : axes.Perm (List.range rank))
include permutes

theorem length_of_permutes : axes.length = rank := by
  rw [permutes.length_eq, List.length_range]

theorem getD_lt {position : Nat} (inside : position < rank) : axes.getD position 0 < rank := by
  rw [List.getD_eq_getElem _ _ (by rwa [length_of_permutes permutes])]
  exact List.mem_range.mp (permutes.mem_iff.mp (List.getElem_mem _))

theorem idxOf_lt {axis : Nat} (inside : axis < rank) : axes.idxOf axis < rank := by
  rw [← length_of_permutes permutes]
  exact List.idxOf_lt_length_of_mem (permutes.mem_iff.mpr (List.mem_range.mpr inside))

theorem getD_idxOf {axis : Nat} (inside : axis < rank) : axes.getD (axes.idxOf axis) 0 = axis := by
  have entry := List.getElem?_idxOf (permutes.mem_iff.mpr (List.mem_range.mpr inside))
  rw [List.getD_eq_getElem?_getD, entry, Option.getD_some]

theorem idxOf_getD {position : Nat} (inside : position < rank) :
    axes.idxOf (axes.getD position 0) = position := by
  have here : position < axes.length := by rwa [length_of_permutes permutes]
  rw [List.getD_eq_getElem _ _ here]
  exact (permutes.nodup_iff.mpr List.nodup_range).idxOf_getElem position here

theorem permuteDims_restore (length : index.length = rank) :
    permuteDims axes (restore axes index) = index := by
  have axesLength := length_of_permutes permutes
  apply eq_of_getD (by rw [length_permuteDims, axesLength, length])
  intro position inside
  rw [length] at inside
  rw [getD_permuteDims (by rwa [axesLength]),
    getD_restore (by rw [axesLength]; exact getD_lt permutes inside), idxOf_getD permutes inside]

theorem restore_permuteDims (length : index.length = rank) :
    restore axes (permuteDims axes index) = index := by
  have axesLength := length_of_permutes permutes
  apply eq_of_getD (by rw [length_restore, axesLength, length])
  intro axis inside
  rw [length] at inside
  rw [getD_restore (by rwa [axesLength]),
    getD_permuteDims (by rw [axesLength]; exact idxOf_lt permutes inside),
    getD_idxOf permutes inside]

end

theorem restore_range (index : List Nat) : restore (List.range index.length) index = index := by
  have undone : restore (List.range index.length) (permuteDims (List.range index.length) index) =
      index := restore_permuteDims (.refl _) rfl
  rwa [permuteDims_range] at undone

/-- Reordering by one permutation and then by another is reordering by the
reordered axes. -/
theorem permuteDims_permuteDims (below : ∀ axis ∈ second, axis < first.length) :
    permuteDims second (permuteDims first dims) = permuteDims (permuteDims second first) dims := by
  unfold permuteDims
  rw [List.map_map]
  apply List.map_congr_left
  intro axis member
  simp [below axis member]

theorem permutes_permuteDims (permutesFirst : first.Perm (List.range rank))
    (permutesSecond : second.Perm (List.range rank)) :
    (permuteDims second first).Perm (List.range rank) := by
  have reordered : (permuteDims second first).Perm (permuteDims (List.range rank) first) :=
    permutesSecond.map _
  apply reordered.trans
  rw [← length_of_permutes permutesFirst, permuteDims_range, length_of_permutes permutesFirst]
  exact permutesFirst

theorem restore_restore (permutesFirst : first.Perm (List.range rank))
    (permutesSecond : second.Perm (List.range rank)) (length : index.length = rank) :
    restore (permuteDims second first) index = restore first (restore second index) := by
  have secondLength := length_of_permutes permutesSecond
  have innerLength : (restore second index).length = rank := by rw [length_restore, secondLength]
  have outerLength : (restore first (restore second index)).length = rank := by
    rw [length_restore, length_of_permutes permutesFirst]
  have forward : permuteDims (permuteDims second first) (restore first (restore second index)) =
      index := by
    rw [← permuteDims_permuteDims, permuteDims_restore permutesFirst innerLength,
      permuteDims_restore permutesSecond length]
    intro axis member
    rw [length_of_permutes permutesFirst]
    exact List.mem_range.mp (permutesSecond.mem_iff.mp member)
  calc restore (permuteDims second first) index
      = restore (permuteDims second first)
          (permuteDims (permuteDims second first) (restore first (restore second index))) := by
        rw [forward]
    _ = restore first (restore second index) :=
        restore_permuteDims (permutes_permuteDims permutesFirst permutesSecond) outerLength

end Axes

/-! ## Row-major positions -/

namespace RowMajor

variable {dims index : List Nat} {place : Nat}

/-- A multi-index stays below the dimensions. -/
def Inside (dims index : List Nat) : Prop :=
  List.Forall₂ (· < ·) index dims

/-- The position of the element at a multi-index. -/
def position : List Nat → List Nat → Nat
  | _ :: dims, head :: index => head * dims.prod + position dims index
  | _, _ => 0

/-- The multi-index of the element at a position. -/
def unravel : List Nat → Nat → List Nat
  | [], _ => []
  | _ :: dims, place => place / dims.prod :: unravel dims (place % dims.prod)

theorem position_lt (inside : Inside dims index) : position dims index < dims.prod := by
  unfold Inside at inside
  induction inside with
  | nil => simp [position]
  | @cons head extent index dims below _ inductionHypothesis =>
      rw [position, List.prod_cons]
      calc head * dims.prod + position dims index
          < head * dims.prod + dims.prod := Nat.add_lt_add_left inductionHypothesis _
        _ = (head + 1) * dims.prod := (Nat.succ_mul head dims.prod).symm
        _ ≤ extent * dims.prod := Nat.mul_le_mul_right _ below

theorem unravel_position (inside : Inside dims index) :
    unravel dims (position dims index) = index := by
  unfold Inside at inside
  induction inside with
  | nil => rfl
  | @cons head extent index dims _ rest inductionHypothesis =>
      have below : position dims index < dims.prod := position_lt rest
      have positive : 0 < dims.prod := Nat.zero_lt_of_lt below
      have quotient : (head * dims.prod + position dims index) / dims.prod = head := by
        rw [Nat.mul_comm, Nat.mul_add_div positive, Nat.div_eq_of_lt below, Nat.add_zero]
      have remainder : (head * dims.prod + position dims index) % dims.prod =
          position dims index := by
        rw [Nat.mul_comm, Nat.mul_add_mod, Nat.mod_eq_of_lt below]
      rw [position, unravel, quotient, remainder, inductionHypothesis]

theorem inside_unravel (below : place < dims.prod) : Inside dims (unravel dims place) := by
  induction dims generalizing place with
  | nil => exact .nil
  | cons extent dims inductionHypothesis =>
      rw [List.prod_cons] at below
      have positive : 0 < dims.prod := Nat.pos_of_lt_mul_left below
      exact .cons (Nat.div_lt_of_lt_mul (Nat.mul_comm extent _ ▸ below))
        (inductionHypothesis (Nat.mod_lt place positive))

theorem position_unravel (below : place < dims.prod) :
    position dims (unravel dims place) = place := by
  induction dims generalizing place with
  | nil => exact (Nat.lt_one_iff.mp below).symm
  | cons extent dims inductionHypothesis =>
      rw [List.prod_cons] at below
      have positive : 0 < dims.prod := Nat.pos_of_lt_mul_left below
      rw [unravel, position, inductionHypothesis (Nat.mod_lt place positive), Nat.mul_comm]
      exact Nat.div_add_mod place dims.prod

theorem inside_iff_getD : Inside dims index ↔ index.length = dims.length ∧
    ∀ axis < dims.length, index.getD axis 0 < dims.getD axis 0 := by
  unfold Inside
  rw [List.forall₂_iff_get]
  refine and_congr_right fun lengths => ?_
  constructor
  · intro below axis inside
    have insideIndex : axis < index.length := lengths ▸ inside
    rw [List.getD_eq_getElem _ _ insideIndex, List.getD_eq_getElem _ _ inside]
    exact below axis insideIndex inside
  · intro below axis insideIndex inside
    have here := below axis inside
    rwa [List.getD_eq_getElem _ _ insideIndex, List.getD_eq_getElem _ _ inside] at here

/-- Undoing a reordering leads back into the original dimensions. -/
theorem inside_restore {axes : List Nat} (permutes : axes.Perm (List.range dims.length))
    (inside : Inside (Graph.permuteDims axes dims) index) :
    Inside dims (Axes.restore axes index) := by
  have axesLength := Axes.length_of_permutes permutes
  rcases inside_iff_getD.mp inside with ⟨_, below⟩
  refine inside_iff_getD.mpr ⟨by rw [Axes.length_restore, axesLength], ?_⟩
  intro axis isAxis
  have found : axes.idxOf axis < axes.length := by
    rw [axesLength]
    exact Axes.idxOf_lt permutes isAxis
  have here := below (axes.idxOf axis) (by rwa [Axes.length_permuteDims])
  rw [Axes.getD_permuteDims found, Axes.getD_idxOf permutes isAxis] at here
  rwa [Axes.getD_restore (by rwa [axesLength])]

end RowMajor

theorem TensorType.eq_of_ofDims? {dtype : DataType} {dims : List Nat} {type : TensorType}
    (shaped : TensorType.ofDims? dtype dims = some type) : type = ⟨dtype, dims⟩ := by
  unfold TensorType.ofDims? at shaped
  split at shaped
  · exact (Option.some.inj shaped).symm
  · cases shaped

theorem TensorType.rank_of_ofDims? {dtype : DataType} {dims : List Nat} {type : TensorType}
    (shaped : ofDims? dtype dims = some type) : type.rank ≤ maxRank := by
  unfold ofDims? at shaped
  split at shaped
  · next room => exact Option.some.inj shaped ▸ room
  · cases shaped

/-- The elements of a type are counted by the product of its dimensions. -/
theorem TensorType.prod_of_elements {type : TensorType} {count : Nat}
    (counted : type.elements = .ok count) : type.shape.prod = count :=
  Word.prod_of_product counted

/-! ## Tensors -/

/-- A value: elements in row-major order with their type. -/
structure Tensor (α : DataType → Type) where
  dtype : DataType
  shape : List Nat
  data : List (α dtype)
  fits : data.length = shape.prod

namespace Tensor

open TensorCompiler.Graph (isPermutation permuteDims)

variable {α : DataType → Type} {axes first second dims : List Nat}

def type (x : Tensor α) : TensorType :=
  ⟨x.dtype, x.shape⟩

theorem mk_congr {dtype : DataType} {shape other : List Nat} {data otherData : List (α dtype)}
    {fits : data.length = shape.prod} {otherFits : otherData.length = other.prod}
    (sameShape : shape = other) (sameData : data = otherData) :
    (⟨dtype, shape, data, fits⟩ : Tensor α) = ⟨dtype, other, otherData, otherFits⟩ := by
  subst sameShape sameData
  rfl

/-- The elements at the given places. -/
def gather (x : Tensor α) (count : Nat) (source : Nat → Nat) : List (α x.dtype) :=
  (List.range count).filterMap fun place => x.data[source place]?

theorem map_some_gather {x : Tensor α} {count : Nat} {source : Nat → Nat}
    (bounded : ∀ place < count, source place < x.shape.prod) :
    (x.gather count source).map some =
      (List.range count).map fun place => x.data[source place]? := by
  unfold gather
  have each : ∀ place ∈ List.range count, ∃ element, x.data[source place]? = some element := by
    intro place member
    have inside : source place < x.data.length := by
      rw [x.fits]
      exact bounded place (List.mem_range.mp member)
    exact ⟨_, List.getElem?_eq_getElem inside⟩
  generalize List.range count = places at each ⊢
  induction places with
  | nil => rfl
  | cons place rest inductionHypothesis =>
      rcases each place List.mem_cons_self with ⟨element, found⟩
      have later := inductionHypothesis fun other member =>
        each other (List.mem_cons_of_mem place member)
      rw [List.filterMap_cons, found]
      simp only [List.map_cons, found, later]

theorem length_gather {x : Tensor α} {count : Nat} {source : Nat → Nat}
    (bounded : ∀ place < count, source place < x.shape.prod) :
    (x.gather count source).length = count := by
  have lengths := congrArg List.length (map_some_gather bounded)
  simpa using lengths

theorem getElem?_gather {x : Tensor α} {count place : Nat} {source : Nat → Nat}
    (bounded : ∀ place < count, source place < x.shape.prod) (inside : place < count) :
    (x.gather count source)[place]? = x.data[source place]? := by
  have entries := congrArg (fun entries => entries[place]?) (map_some_gather bounded)
  simp only [List.getElem?_map, List.getElem?_range inside, Option.map_some] at entries
  cases found : (x.gather count source)[place]? with
  | none =>
      rw [found] at entries
      cases entries
  | some element =>
      rw [found] at entries
      exact Option.some.inj entries

theorem gather_self {x : Tensor α} {source : Nat → Nat}
    (stays : ∀ place < x.shape.prod, source place = place) :
    x.gather x.shape.prod source = x.data := by
  have bounded : ∀ place < x.shape.prod, source place < x.shape.prod := by
    intro place below
    rwa [stays place below]
  apply List.ext_getElem?
  intro place
  by_cases below : place < x.shape.prod
  · rw [getElem?_gather bounded below, stays place below]
  · have outside := Nat.le_of_not_lt below
    rw [List.getElem?_eq_none (by rwa [length_gather bounded]),
      List.getElem?_eq_none (by rwa [x.fits])]

/-- Where a transpose takes the element from that it puts at a place. -/
def origin (axes shape : List Nat) (place : Nat) : Nat :=
  RowMajor.position shape (Axes.restore axes (RowMajor.unravel (permuteDims axes shape) place))

theorem origin_lt {shape : List Nat} (permutes : isPermutation axes shape.length = true) :
    ∀ place < (permuteDims axes shape).prod, origin axes shape place < shape.prod := by
  intro place below
  exact RowMajor.position_lt (RowMajor.inside_restore (Axes.isPermutation_iff.mp permutes)
    (RowMajor.inside_unravel below))

/-- Axis `i` of the result is axis `axes[i]` of the operand.  Axes that are no
permutation leave the operand as it is. -/
def transpose (axes : List Nat) (x : Tensor α) : Tensor α :=
  if permutes : isPermutation axes x.shape.length = true then
    { dtype := x.dtype
      shape := permuteDims axes x.shape
      data := x.gather (permuteDims axes x.shape).prod (origin axes x.shape)
      fits := length_gather (origin_lt permutes) }
  else x

/-- The same elements with other dimensions, if there are as many of them. -/
def reshape (dims : List Nat) (x : Tensor α) : Tensor α :=
  if fits : x.data.length = dims.prod then
    { dtype := x.dtype, shape := dims, data := x.data, fits := fits }
  else x

theorem type_transpose {x : Tensor α} (permutes : isPermutation axes x.shape.length = true) :
    (x.transpose axes).type = ⟨x.dtype, permuteDims axes x.shape⟩ := by
  rw [transpose, dif_pos permutes]
  rfl

theorem type_reshape {x : Tensor α} (same : x.shape.prod = dims.prod) :
    (x.reshape dims).type = ⟨x.dtype, dims⟩ := by
  rw [reshape, dif_pos (x.fits.trans same)]
  rfl

/-! ## Laws of moving elements -/

/-- Going back through two transposes is going back through the composed one. -/
theorem origin_origin {shape : List Nat} {place : Nat}
    (permutesFirst : first.Perm (List.range shape.length))
    (permutesSecond : second.Perm (List.range shape.length))
    (shapes : permuteDims second (permuteDims first shape) =
      permuteDims (permuteDims second first) shape)
    (below : place < (permuteDims second (permuteDims first shape)).prod) :
    origin first shape (origin second (permuteDims first shape) place) =
      origin (permuteDims second first) shape place := by
  have rank : (permuteDims first shape).length = shape.length := by
    rw [Axes.length_permuteDims, Axes.length_of_permutes permutesFirst]
  have inside := RowMajor.inside_unravel below
  have length : (RowMajor.unravel (permuteDims second (permuteDims first shape)) place).length =
      shape.length := by
    rw [List.Forall₂.length_eq inside, Axes.length_permuteDims,
      Axes.length_of_permutes permutesSecond]
  have insideFirst := RowMajor.inside_restore (rank ▸ permutesSecond) inside
  unfold origin
  rw [RowMajor.unravel_position insideFirst, ← shapes,
    Axes.restore_restore permutesFirst permutesSecond length]

/-- Two transposes in a row are one. -/
theorem transpose_transpose {x : Tensor α}
    (permutesFirst : isPermutation first x.shape.length = true)
    (permutesSecond : isPermutation second x.shape.length = true) :
    (x.transpose first).transpose second = x.transpose (permuteDims second first) := by
  have firstPerm := Axes.isPermutation_iff.mp permutesFirst
  have secondPerm := Axes.isPermutation_iff.mp permutesSecond
  have composed : isPermutation (permuteDims second first) x.shape.length = true :=
    Axes.isPermutation_iff.mpr (Axes.permutes_permuteDims firstPerm secondPerm)
  have shapes : permuteDims second (permuteDims first x.shape) =
      permuteDims (permuteDims second first) x.shape := by
    refine Axes.permuteDims_permuteDims fun axis member => ?_
    rw [Axes.length_of_permutes firstPerm]
    exact List.mem_range.mp (secondPerm.mem_iff.mp member)
  have permutesNext : isPermutation second (permuteDims first x.shape).length = true := by
    rwa [Axes.length_permuteDims, Axes.length_of_permutes firstPerm]
  unfold transpose
  rw [dif_pos permutesFirst, dif_pos composed]
  refine (dif_pos permutesNext).trans (mk_congr shapes ?_)
  unfold gather
  rw [← shapes]
  apply List.filterMap_congr
  intro place member
  have below := List.mem_range.mp member
  refine (getElem?_gather (origin_lt permutesFirst) (origin_lt permutesNext place below)).trans ?_
  rw [origin_origin firstPerm secondPerm shapes below]

/-- The transpose that moves no axis. -/
theorem transpose_range (x : Tensor α) : x.transpose (List.range x.shape.length) = x := by
  have permutes : isPermutation (List.range x.shape.length) x.shape.length = true :=
    Axes.isPermutation_iff.mpr (.refl _)
  have stays : ∀ place < x.shape.prod,
      origin (List.range x.shape.length) x.shape place = place := by
    intro place below
    have length : (RowMajor.unravel x.shape place).length = x.shape.length :=
      List.Forall₂.length_eq (RowMajor.inside_unravel below)
    rw [origin, Axes.permuteDims_range, ← length, Axes.restore_range,
      RowMajor.position_unravel below]
  refine (dif_pos permutes).trans (mk_congr (Axes.permuteDims_range x.shape) ?_)
  rw [Axes.permuteDims_range]
  exact gather_self stays

theorem reshape_reshape {x : Tensor α} (sameFirst : x.shape.prod = first.prod)
    (sameSecond : x.shape.prod = second.prod) :
    (x.reshape first).reshape second = x.reshape second := by
  unfold reshape
  rw [dif_pos (x.fits.trans sameFirst)]
  exact (dif_pos (x.fits.trans sameSecond)).trans (dif_pos (x.fits.trans sameSecond)).symm

theorem reshape_shape (x : Tensor α) : x.reshape x.shape = x := by
  rw [reshape, dif_pos x.fits]

end Tensor

end TensorCompiler
