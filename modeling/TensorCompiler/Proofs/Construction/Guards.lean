import TensorCompiler.Proofs.Construction.Sessions
import TensorCompiler.Proofs.Construction.Transcription
import TensorCompiler.Proofs.Evaluation.Tensors
import TensorCompiler.Rule

namespace TensorCompiler

/-!
# Checks that cannot fail

Constructors look up dimensions by their positions, subtract and divide extents, and
store dimensions and axes where there is room for a bounded number of them.  They test
their operands first, so that none of this can go wrong.

To say so, the constructors are written here once more with operations that abort if a
position is out of range, a difference is negative, a divisor is zero or there is no
room.  Those for convolutions and matrix products are the same functions.  Those for
transposes agree on graphs whose values have bounded ranks, and reading a script makes
only such graphs.
-/

/-! ## Strict operations -/

/-- A quotient, where the divisor must not be zero. -/
def Word.quotient (n divisor : Nat) : Checked Nat :=
  if divisor = 0 then abort .outOfRange else .ok (n / divisor)

/-- Axes or dimensions, of which there must not be too many. -/
def bounded (entries : List Nat) : Checked (List Nat) :=
  if entries.length ≤ maxRank then .ok entries else abort .rankTooLarge

namespace Graph

/-- The dimensions after reordering the axes, all of which have to be there. -/
def strictPermuteDims (axes dims : List Nat) : Checked (List Nat) :=
  axes.mapM (entryAt dims)

def strictTranspose (value : Outlet) (axes : List Nat) : Edit Outlet := do
  let type ← Edit.ask (·.outputType value)
  if isPermutation axes type.rank then
    let dims ← strictPermuteDims axes type.shape
    let transposed ← TensorType.ofDims type.dtype dims
    applyOperator (.transpose (← bounded axes)) [value] transposed
  else refuse (.badPermutation axes)

def strictConvolvedType (convolution : Convolution) (image weights bias : TensorType) :
    Checked TensorType := do
  if image.rank ≠ 4 then refuse (.badRank image.rank)
  if weights.rank ≠ 4 then refuse (.badRank weights.rank)
  let batch ← entryAt image.shape 0
  let channels ← entryAt image.shape 1
  let height ← entryAt image.shape 2
  let width ← entryAt image.shape 3
  let features ← entryAt weights.shape 0
  let depth ← entryAt weights.shape 1
  let kernelHeight ← entryAt weights.shape 2
  let kernelWidth ← entryAt weights.shape 3
  let mismatch : Error := .shapeMismatch image.shape weights.shape
  if channels ≠ depth ∨ bias.shape ≠ [features] then refuse mismatch
  if convolution.strideHeight = 0 ∨ convolution.strideWidth = 0 then refuse mismatch
  let paddedHeight ← paddedExtent height convolution.paddingHeight
  if paddedHeight < kernelHeight then refuse mismatch
  let paddedWidth ← paddedExtent width convolution.paddingWidth
  if paddedWidth < kernelWidth then refuse mismatch
  let vertical ← Word.quotient (← Word.sub paddedHeight kernelHeight) convolution.strideHeight
  let rows ← Word.add vertical 1
  let horizontal ← Word.quotient (← Word.sub paddedWidth kernelWidth) convolution.strideWidth
  let columns ← Word.add horizontal 1
  TensorType.ofDims image.dtype [batch, features, rows, columns]

def strictProductType (first second : TensorType) : Checked TensorType := do
  let mismatch : Error := .shapeMismatch first.shape second.shape
  if first.rank ≠ 2 ∨ second.rank ≠ 2 then refuse mismatch
  let inner ← entryAt first.shape 1
  let depth ← entryAt second.shape 0
  if inner ≠ depth then refuse mismatch
  let rows ← entryAt first.shape 0
  let columns ← entryAt second.shape 1
  TensorType.ofDims first.dtype [rows, columns]

end Graph

/-! ## What the guards rule out -/

theorem Word.sub_of_not_lt {first second : Nat} (enough : ¬ first < second) :
    sub first second = .ok (first - second) :=
  if_pos (Nat.le_of_not_lt enough)

theorem Word.quotient_of_ne_zero {n divisor : Nat} (nonzero : divisor ≠ 0) :
    quotient n divisor = .ok (n / divisor) :=
  if_neg nonzero

theorem TensorType.ofDims_of_le {dtype : DataType} {dims : List Nat}
    (room : dims.length ≤ maxRank) : ofDims dtype dims = .ok ⟨dtype, dims⟩ := by
  unfold ofDims ofDims?
  rw [if_pos room]

theorem bounded_of_le {entries : List Nat} (room : entries.length ≤ maxRank) :
    bounded entries = .ok entries :=
  if_pos room

namespace Graph

theorem entryAt_of_lt {dims : List Nat} {axis : Nat} (inside : axis < dims.length) :
    entryAt dims axis = .ok (dims.getD axis 0) := by
  rw [entryAt, List.getD_eq_getElem?_getD, List.getElem?_eq_getElem inside]
  rfl

theorem strictPermuteDims_of_lt {axes dims : List Nat}
    (inside : ∀ axis ∈ axes, axis < dims.length) :
    strictPermuteDims axes dims = .ok (permuteDims axes dims) := by
  apply Checked.mapM_eq_ok.mpr
  rw [permuteDims, List.forall₂_map_right_iff]
  exact List.forall₂_same.mpr fun axis member => entryAt_of_lt (inside axis member)

/-- The shape of a type of rank four. -/
theorem exists_shape_of_rank_four {type : TensorType} (four : type.rank = 4) :
    ∃ a b c d, type.shape = [a, b, c, d] := by
  rcases type with ⟨dtype, shape⟩
  match shape, four with
  | [a, b, c, d], _ => exact ⟨a, b, c, d, rfl⟩

theorem strictConvolvedType_eq (convolution : Convolution) (image weights bias : TensorType) :
    strictConvolvedType convolution image weights bias =
      convolvedType convolution image weights bias := by
  by_cases imageFour : image.rank = 4
  · rcases exists_shape_of_rank_four imageFour with ⟨batch, channels, height, width, imageShape⟩
    by_cases weightsFour : weights.rank = 4
    · rcases exists_shape_of_rank_four weightsFour with
        ⟨features, depth, kernelHeight, kernelWidth, weightsShape⟩
      rw [strictConvolvedType, if_neg (not_not.mpr imageFour), if_neg (not_not.mpr weightsFour)]
      simp only [imageShape, weightsShape, convolvedType, entryAt, List.getElem?_cons_zero,
        List.getElem?_cons_succ, Checked.ok_bind]
      -- The tests are the same on both sides.  Behind all of them the strict operations succeed.
      apply Checked.guard_congr
      intro _
      apply Checked.guard_congr
      intro moves
      apply Checked.bind_congr
      intro paddedHeight _
      apply Checked.guard_congr
      intro high
      apply Checked.bind_congr
      intro paddedWidth _
      apply Checked.guard_congr
      intro wide
      rw [not_or] at moves
      simp only [Word.sub_of_not_lt high, Word.sub_of_not_lt wide,
        Word.quotient_of_ne_zero moves.1, Word.quotient_of_ne_zero moves.2, Checked.ok_bind]
      rfl
    · have refused : strictConvolvedType convolution image weights bias =
          refuse (.badRank weights.rank) := by
        rw [strictConvolvedType, if_neg (not_not.mpr imageFour), if_pos weightsFour]
        rfl
      rw [refused, convolvedType]
      split
      · next weightsShape => exact absurd (congrArg List.length weightsShape) weightsFour
      · rfl
      · next other _ => exact absurd imageShape (other batch channels height width)
  · have refused : strictConvolvedType convolution image weights bias =
        refuse (.badRank image.rank) := by
      rw [strictConvolvedType, if_pos imageFour]
      rfl
    rw [refused, convolvedType]
    split
    · next imageShape _ => exact absurd (congrArg List.length imageShape) imageFour
    · next imageShape _ => exact absurd (congrArg List.length imageShape) imageFour
    · rfl

theorem strictProductType_eq (first second : TensorType) :
    strictProductType first second = productType first second := by
  unfold productType
  split
  · next rows inner depth columns firstShape secondShape =>
    simp only [strictProductType, TensorType.rank, firstShape, secondShape, entryAt,
      List.getElem?_cons_zero, List.getElem?_cons_succ, Checked.ok_bind]
    have pairs : ¬ ([rows, inner].length ≠ 2 ∨ [depth, columns].length ≠ 2) := by simp
    rw [if_neg pairs]
    by_cases same : inner = depth
    · rw [if_neg (not_not.mpr same), if_pos same]
      rfl
    · rw [if_pos same, if_neg same]
      rfl
  · next other =>
    have refused : first.rank ≠ 2 ∨ second.rank ≠ 2 := by
      by_contra both
      rw [not_or, not_not, not_not] at both
      rcases List.length_eq_two.mp both.1 with ⟨rows, inner, firstShape⟩
      rcases List.length_eq_two.mp both.2 with ⟨depth, columns, secondShape⟩
      exact other rows inner depth columns firstShape secondShape
    rw [strictProductType, if_pos refused]
    rfl

/-! ## Bounded ranks -/

/-- No value of a graph has too many dimensions. -/
def Ranked (g : Graph) : Prop :=
  ∀ outlet type, g.outputType outlet = .ok type → type.rank ≤ maxRank

theorem ranked_empty : Graph.empty.Ranked := by
  intro outlet type typed
  rcases outputType_iff.mp typed with ⟨node, impossible, _⟩
  cases impossible

variable {g h : Graph}

theorem Ranked.append {node : Node} (ranked : g.Ranked) (appended : g.Appended node h)
    (new : ∀ type ∈ node.signature.results, type.rank ≤ maxRank) : h.Ranked := by
  intro outlet type typed
  rcases outputType_iff.mp typed with ⟨now, found, result⟩
  rcases appended.node_cases found with ⟨_, before, foundBefore, same⟩ | ⟨_, same⟩
  · exact ranked outlet type (outputType_iff.mpr ⟨before, foundBefore, same ▸ result⟩)
  · exact new type (List.mem_of_getElem? (same ▸ result))

theorem Ranked.of_updateNode {id : Nat} {change : Node → Node} (ranked : g.Ranked)
    (done : updateNode id change g = .ok () h)
    (signature : ∀ node, (change node).signature = node.signature) : h.Ranked := by
  rcases updateNode_eq_ok done with rfl
  intro outlet type typed
  rcases outputType_iff.mp typed with ⟨now, found, result⟩
  rcases exists_node_of_view (signature_modifyNode signature id outlet.node).symm found with
    ⟨before, foundBefore, same⟩
  exact ranked outlet type (outputType_iff.mpr ⟨before, foundBefore, same ▸ result⟩)

end Graph

namespace Graph

variable {first second image weights bias type : TensorType}

theorem rank_permuteDims {axes : List Nat} (permutes : isPermutation axes type.rank = true) :
    (permuteDims axes type.shape).length = type.rank := by
  rw [permuteDims, List.length_map, Axes.length_of_permutes (Axes.isPermutation_iff.mp permutes)]

/-- An elementwise function returns a value like one of its operands. -/
theorem eq_or_eq_of_binaryType {function : BinaryFunction}
    (fits : binaryType function first second = .ok type) : type = first ∨ type = second := by
  unfold binaryType at fits
  split at fits
  · exact absurd fits Checked.refuse_ne_ok
  · split at fits
    · exact Or.inl (Checked.pure_eq_ok.mp fits).symm
    · split at fits
      · exact Or.inr (Checked.pure_eq_ok.mp fits).symm
      · exact absurd fits Checked.refuse_ne_ok

theorem rank_of_convolvedType {convolution : Convolution}
    (fits : convolvedType convolution image weights bias = .ok type) : type.rank ≤ maxRank := by
  unfold convolvedType at fits
  split at fits
  · simp only [Checked.guard_eq_ok, Checked.bind_eq_ok, Checked.pure_eq_ok] at fits
    rcases fits with ⟨-, -, _, -, -, _, -, -, _, -, _, -, rfl⟩
    exact (by decide : 4 ≤ maxRank)
  · exact absurd fits Checked.refuse_ne_ok
  · exact absurd fits Checked.refuse_ne_ok

theorem rank_of_productType (fits : productType first second = .ok type) :
    type.rank ≤ maxRank := by
  unfold productType at fits
  split at fits
  · split at fits
    · rcases Checked.pure_eq_ok.mp fits with rfl
      exact (by decide : 2 ≤ maxRank)
    · exact absurd fits Checked.refuse_ne_ok
  · exact absurd fits Checked.refuse_ne_ok

end Graph

/-- The results of an operator with operands have bounded ranks if the operands have. -/
theorem Operator.HasTypes.rank_le {op : Operator} {types results : List TensorType}
    (typing : op.HasTypes types results) (operands : ∀ type ∈ types, type.rank ≤ maxRank)
    (some : types ≠ []) : ∀ type ∈ results, type.rank ≤ maxRank := by
  cases typing with
  | input => exact absurd rfl some
  | constant fits => exact absurd rfl some
  | output => exact List.forall_mem_nil _
  | transpose permutes =>
      rw [List.forall_mem_singleton, TensorType.rank, Graph.rank_permuteDims permutes]
      exact operands _ List.mem_cons_self
  | reshape shaped requested present =>
      exact List.forall_mem_singleton.mpr (TensorType.rank_of_ofDims? shaped)
  | binary fits =>
      rcases Graph.eq_or_eq_of_binaryType fits with rfl | rfl
      · exact List.forall_mem_singleton.mpr (operands _ List.mem_cons_self)
      · exact List.forall_mem_singleton.mpr
          (operands _ (List.mem_cons_of_mem _ List.mem_cons_self))
  | conv2d floats fits =>
      exact List.forall_mem_singleton.mpr (Graph.rank_of_convolvedType fits)
  | accelConv2d quantized kernel fits =>
      exact List.forall_mem_singleton.mpr (Graph.rank_of_convolvedType fits)
  | matMul fits => exact List.forall_mem_singleton.mpr (Graph.rank_of_productType fits)
  | _ =>
      -- The result has the shape of the operand, whatever its elements are.
      have bound := operands _ List.mem_cons_self
      exact List.forall_mem_singleton.mpr bound

namespace Graph

/-- A transpose never runs out of range or out of room. -/
theorem Ranked.strictTranspose_eq {g : Graph} (ranked : g.Ranked) (value : Outlet)
    (axes : List Nat) : strictTranspose value axes g = transpose value axes g := by
  refine Stateful.bind_congr fun type between asked => ?_
  rcases Edit.ask_eq_ok.mp asked with ⟨typed, rfl⟩
  by_cases permutes : isPermutation axes type.rank = true
  · rw [if_pos permutes, if_pos permutes]
    have perm := Axes.isPermutation_iff.mp permutes
    have inside : ∀ axis ∈ axes, axis < type.shape.length := by
      intro axis member
      exact List.mem_range.mp (perm.mem_iff.mp member)
    have room : axes.length ≤ maxRank := by
      rw [Axes.length_of_permutes perm]
      exact ranked value type typed
    have stored : (permuteDims axes type.shape).length ≤ maxRank := by
      rwa [permuteDims, List.length_map]
    rw [Stateful.bind_of_lift (strictPermuteDims_of_lt inside),
      Stateful.bind_of_lift (TensorType.ofDims_of_le stored),
      Stateful.bind_of_lift (bounded_of_le room)]
  · rw [if_neg permutes, if_neg permutes]

theorem Ranked.rank_of_typesAt {g : Graph} {sources : List Outlet} {types : List TensorType}
    (ranked : g.Ranked) (typed : g.TypesAt sources types) :
    ∀ type ∈ types, type.rank ≤ maxRank := by
  induction typed with
  | nil =>
      intro type impossible
      cases impossible
  | cons here _ inductionHypothesis =>
      intro type member
      rcases List.mem_cons.mp member with rfl | later
      · exact ranked _ _ here
      · exact inductionHypothesis type later

/-- A node with operands leaves the ranks bounded. -/
theorem Ranked.of_adds {op : Operator} {operands : List Outlet} {g h : Graph} (ranked : g.Ranked)
    (adds : g.Adds op operands h) (some : operands ≠ []) : h.Ranked := by
  rcases adds with ⟨name, types, results, typed, accepted, appended⟩
  have someTypes : types ≠ [] := by
    rintro rfl
    exact some (List.forall₂_nil_right_iff.mp typed)
  apply ranked.append appended
  rw [results_connectedNode]
  exact accepted.rank_le (ranked.rank_of_typesAt typed) someTypes

theorem Ranked.of_input {name : String} {type : TensorType} {outlet : Outlet} {g h : Graph}
    (ranked : g.Ranked) (intact : g.Intact) (bound : type.rank ≤ maxRank)
    (done : input name type g = .ok outlet h) : h.Ranked := by
  simp only [input, Stateful.bind_eq_ok, Stateful.pure_eq_ok, addNode_eq_ok] at done
  rcases done with ⟨_, _, ⟨_, _, rfl⟩, _, rfl⟩
  have appended : g.Appended (connectedNode .input name [] [type]) _ :=
    .push intact.toFaithful intact.acyclic
  apply ranked.append appended
  rw [results_connectedNode]
  exact List.forall_mem_singleton.mpr bound

theorem Ranked.of_constant {type : TensorType} {data : List UInt8} {outlet : Outlet}
    {g h : Graph} (ranked : g.Ranked) (intact : g.Intact) (bound : type.rank ≤ maxRank)
    (done : constant type data g = .ok outlet h) : h.Ranked := by
  rcases constant_eq_ok.mp done with ⟨size, applied⟩
  rcases exists_applyOperator intact.toFaithful intact.acyclic .nil (.constant size) with
    ⟨name, after, again, appended⟩
  rcases EStateM.Result.ok.inj (applied.symm.trans again) with ⟨_, rfl⟩
  apply ranked.append appended
  rw [results_connectedNode]
  exact List.forall_mem_singleton.mpr bound

end Graph

/-! ## Statements -/

/-- Carry out a statement with strict operations. -/
def Statement.buildStrictly (name : String) : Statement → Edit (Option Outlet)
  | transpose value axes => some <$> Graph.strictTranspose value axes
  | conv2d image weights bias convolution => some <$> do
    let _ ← Edit.ask (·.typeWith image (· = .f32) "conv2d")
    let type ← Edit.ask fun g => do
      Graph.strictConvolvedType convolution (← g.outputType image) (← g.outputType weights)
        (← g.outputType bias)
    Graph.applyOperator (.conv2d convolution) [image, weights, bias] type
  | matMul first second => some <$> do
    let firstType ← Edit.ask (·.outputType first)
    let secondType ← Edit.ask (·.outputType second)
    Graph.applyOperator (.matMul .unbounded) [first, second]
      (← Graph.strictProductType firstType secondType)
  | statement => statement.build name

theorem Graph.Ranked.buildStrictly_eq {g : Graph} (ranked : g.Ranked) (name : String)
    (statement : Statement) : statement.buildStrictly name g = statement.build name g := by
  cases statement with
  | transpose value axes =>
      exact Stateful.map_congr (ranked.strictTranspose_eq value axes)
  | conv2d image weights bias convolution =>
      simp only [Statement.buildStrictly, Statement.build, conv2d, strictConvolvedType_eq]
      rfl
  | matMul first second =>
      simp only [Statement.buildStrictly, Statement.build, matMul, strictProductType_eq]
  | _ => rfl

/-! ## Scripts -/

namespace Script

variable {context : LineContext} {opcode : String} {words rest : List (List Char)}
  {type : TensorType}

/-- A type that a line declares has a bounded rank. -/
theorem rank_of_input (read : context.statement opcode words = .ok (.input type, rest)) :
    type.rank ≤ maxRank :=
  ((understood_of_statement read).parameters [type] rfl).rank_le rfl

theorem rank_of_constant {data : List UInt8}
    (read : context.statement opcode words = .ok (.constant type data, rest)) :
    type.rank ≤ maxRank :=
  ((understood_of_statement read).parameters [type] rfl).rank_le rfl

theorem kept_ranked : Kept fun g => g.Made ∧ g.Ranked where
  build := by
    rintro g h name statement value? ⟨made, ranked⟩ ⟨context, opcode, arguments, rest, read⟩ done
    refine ⟨made_of_build made done, ?_⟩
    have adds := (adds_of_build made.intact done).1
    cases statement with
    | input type =>
        rcases Stateful.map_eq_ok.mp done with ⟨outlet, declared, _⟩
        exact ranked.of_input made.intact (rank_of_input read) declared
    | constant type data =>
        rcases Stateful.map_eq_ok.mp done with ⟨outlet, stored, _⟩
        exact ranked.of_constant made.intact (rank_of_constant read) stored
    | _ => exact ranked.of_adds adds (List.cons_ne_nil _ _)
  setName := by
    rintro g h id name ⟨made, ranked⟩ done
    exact ⟨made.setName done, ranked.of_updateNode done fun _ => rfl⟩
  updateMarks := by
    rintro g h id change ⟨made, ranked⟩ done
    exact ⟨made.updateMarks done, ranked.of_updateNode done fun _ => rfl⟩

end Script

end TensorCompiler
