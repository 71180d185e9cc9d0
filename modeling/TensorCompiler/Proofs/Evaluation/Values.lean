import Mathlib.Data.Finset.Card
import TensorCompiler.Proofs.Construction.Typing
import TensorCompiler.Proofs.Evaluation.Tensors

namespace TensorCompiler

/-!
# The values of a graph

A graph computes a value at every node once its inputs and constants are given.
Transposes and reshapes move elements as `Tensor` says; what the other operators
compute is left open but for the laws that rewriting relies on.

Every operator has at most one result, so a value belongs to a node.  The value
of a declared output is the value it reads.
-/

/-- Whether what an operator computes is left to the interpretation. -/
def Operator.isInterpreted : Operator → Bool
  | .input | .output | .constant _ | .transpose _ | .reshape _ => false
  | _ => true

/-- How operators other than transposes and reshapes act on values.  They
respect types, and they satisfy the laws that justify rewriting. -/
structure Interpretation (α : DataType → Type) where
  compute : Operator → List (Tensor α) → Tensor α
  respects : ∀ {op : Operator} {operands : List (Tensor α)} {result : TensorType},
    op.isInterpreted = true → op.HasTypes (operands.map Tensor.type) [result] →
      (compute op operands).type = result
  /-- A rectifier is a clamp to the numbers from zero on. -/
  relu : ∀ x, compute (.unary .relu) [x] = compute (.clamp .nonnegative) [x]
  /-- A clamp after a convolution can be intersected with the one inside it. -/
  conv2d_clamp : ∀ {convolution : Convolution} {image weights bias : Tensor α}
    {result : TensorType} (range : ClampRange),
    (Operator.conv2d convolution).HasTypes [image.type, weights.type, bias.type] [result] →
      compute (.conv2d { convolution with clamp := convolution.clamp.intersect range })
          [image, weights, bias] =
        compute (.clamp range) [compute (.conv2d convolution) [image, weights, bias]]
  /-- The same for a product of matrices. -/
  matMul_clamp : ∀ {clamp : ClampRange} {first second : Tensor α} {result : TensorType}
    (range : ClampRange), (Operator.matMul clamp).HasTypes [first.type, second.type] [result] →
      compute (.matMul (clamp.intersect range)) [first, second] =
        compute (.clamp range) [compute (.matMul clamp) [first, second]]
  /-- Quantizing what was dequantized with the same parameters restores it. -/
  quantize_dequantize : ∀ {quantization previous : Quantization} {x : Tensor α},
    quantization.agrees previous = true → x.dtype.isQuantized = true →
      compute (.quantize quantization x.dtype) [compute (.dequantize previous) [x]] = x
  /-- Copying out of accelerator memory and back restores a value. -/
  upload_download : ∀ {x : Tensor α}, x.dtype.isQuantized = true →
    compute .accelUpload [compute .accelDownload [x]] = x

namespace Interpretation

variable {α : DataType → Type} (I : Interpretation α) (assign : Nat → Tensor α)

/-- The value of a node, given those of its operands.  Inputs and constants are
assigned by position. -/
def result (id : Nat) : Operator → List (Tensor α) → Tensor α
  | .input, _ => assign id
  | .constant _, _ => assign id
  | .output, [x] => x
  | .transpose axes, [x] => x.transpose axes
  | .reshape dims, [x] => x.reshape dims
  | op, operands => I.compute op operands

/-- The value of a node, following links backwards at most `fuel` times. -/
def valueWithin (g : Graph) : (fuel : Nat) → Nat → Option (Tensor α)
  | 0, _ => none
  | fuel + 1, id => do
    let node ← g.node? id
    let operands ← node.inputs.mapM fun source =>
      source.bind fun outlet => valueWithin g fuel outlet.node
    return I.result assign id node.op operands

/-- The value of a node.  No chain of links visits a node twice, so the number
of positions is enough. -/
def value (g : Graph) (id : Nat) : Option (Tensor α) :=
  I.valueWithin assign g g.slots.size id

end Interpretation

/-! ## How deep a node stands -/

namespace Graph

variable {g : Graph} {id source : Nat}

open Classical in
/-- The number of nodes that a node needs, directly or through others. -/
noncomputable def depth (g : Graph) (id : Nat) : Nat :=
  ((Finset.range g.slots.size).filter (Relation.TransGen g.Needs id)).card

theorem depth_lt_of_needs (linked : g.Linked) (acyclic : g.Acyclic) (needs : g.Needs id source) :
    g.depth source < g.depth id := by
  classical
  rcases linked.contains_of_needs needs with ⟨node, found⟩
  refine Finset.card_lt_card (Finset.ssubset_iff_of_subset ?_ |>.mpr ?_)
  · intro other member
    rcases Finset.mem_filter.mp member with ⟨inside, path⟩
    exact Finset.mem_filter.mpr ⟨inside, path.head needs⟩
  · refine ⟨source, ?_, ?_⟩
    · exact Finset.mem_filter.mpr
        ⟨Finset.mem_range.mpr (lt_size_of_node? found), .single needs⟩
    · exact fun member => acyclic source (Finset.mem_filter.mp member).2

theorem depth_lt_size (acyclic : g.Acyclic) (inside : id < g.slots.size) :
    g.depth id < g.slots.size := by
  classical
  have fewer : g.depth id < (Finset.range g.slots.size).card := by
    refine Finset.card_lt_card (Finset.ssubset_iff_of_subset (Finset.filter_subset _ _) |>.mpr ?_)
    exact ⟨id, Finset.mem_range.mpr inside,
      fun member => acyclic id (Finset.mem_filter.mp member).2⟩
  rwa [Finset.card_range] at fewer

theorem needs_of_mem_producers {node : Node} {outlet : Outlet} (found : g.node? id = some node)
    (member : outlet ∈ node.producers) : g.Needs id outlet.node :=
  mem_producerIds.mpr ⟨node, found, outlet, member, rfl⟩

theorem producers_eq {node : Node} {sources : List Outlet}
    (connected : node.inputs = sources.map some) : node.producers = sources := by
  rw [Node.producers, connected, List.filterMap_map]
  exact List.filterMap_some

end Graph

namespace Interpretation

variable {α : DataType → Type} {I : Interpretation α} {assign : Nat → Tensor α} {g h : Graph}
  {values : Nat → Tensor α}

/-! ## Values that satisfy the equations of all nodes -/

/-- Every node has the value that its operator gives to those of its operands. -/
def Solves (I : Interpretation α) (assign : Nat → Tensor α) (g : Graph)
    (values : Nat → Tensor α) : Prop :=
  ∀ id node, g.node? id = some node →
    values id = I.result assign id node.op (node.producers.map fun source => values source.node)

theorem mapM_map_some {β : Type} {sources : List Outlet} {look : Outlet → Option β}
    {found : Outlet → β} (each : ∀ source ∈ sources, look source = some (found source)) :
    ((sources.map some).mapM fun source => source.bind look) = some (sources.map found) := by
  induction sources with
  | nil => rfl
  | cons source rest inductionHypothesis =>
      have first := each source List.mem_cons_self
      have others := inductionHypothesis fun other member =>
        each other (List.mem_cons_of_mem source member)
      simp [List.mapM_cons, first, others]

/-- The evaluator finds the values of any solution, so there is at most one. -/
theorem valueWithin_eq_some (valid : g.Valid) (solves : I.Solves assign g values) {fuel id : Nat}
    {node : Node} (found : g.node? id = some node) (enough : g.depth id < fuel) :
    I.valueWithin assign g fuel id = some (values id) := by
  induction fuel generalizing id node with
  | zero => exact absurd enough (Nat.not_lt_zero _)
  | succ fuel inductionHypothesis =>
      have operands : (node.inputs.mapM fun source =>
          source.bind fun outlet => I.valueWithin assign g fuel outlet.node) =
          some (node.producers.map fun source => values source.node) := by
        rcases valid.typed id node found with ⟨sources, _, connected, _⟩
        rw [connected, ← Graph.producers_eq connected]
        apply mapM_map_some
        intro source member
        have needs := Graph.needs_of_mem_producers found member
        rcases valid.linked.contains_of_needs needs with ⟨producer, producerFound⟩
        have shallower := Graph.depth_lt_of_needs valid.linked valid.acyclic needs
        exact inductionHypothesis producerFound (by omega)
      rw [valueWithin, found, solves id node found]
      simp only [Option.bind_eq_bind, Option.bind_some, operands]
      rfl

theorem value_eq_some (valid : g.Valid) (solves : I.Solves assign g values) {id : Nat}
    {node : Node} (found : g.node? id = some node) : I.value assign g id = some (values id) :=
  valueWithin_eq_some valid solves found
    (Graph.depth_lt_size valid.acyclic (Graph.lt_size_of_node? found))

theorem Solves.unique {others : Nat → Tensor α} (valid : g.Valid)
    (solves : I.Solves assign g values) (solvesToo : I.Solves assign g others) {id : Nat}
    {node : Node} (found : g.node? id = some node) : values id = others id :=
  Option.some.inj ((value_eq_some valid solves found).symm.trans
    (value_eq_some valid solvesToo found))

/-- Every valid graph has a solution: values are found going up from the nodes
that need nothing. -/
theorem exists_solves (I : Interpretation α) (assign : Nat → Tensor α) (valid : g.Valid) :
    ∃ values, I.Solves assign g values := by
  classical
  let step : (id : Nat) → ((source : Nat) → g.depth source < g.depth id → Tensor α) → Tensor α :=
    fun id values =>
      match g.node? id with
      | none => assign id
      | some node => I.result assign id node.op (node.producers.map fun source =>
          if shallower : g.depth source.node < g.depth id then values source.node shallower
          else assign id)
  refine ⟨(measure g.depth).wf.fix step, ?_⟩
  intro id node found
  rw [WellFounded.fix_eq]
  simp only [step, found]
  congr 1
  apply List.map_congr_left
  intro source member
  have needs := Graph.needs_of_mem_producers found member
  exact dif_pos (Graph.depth_lt_of_needs valid.linked valid.acyclic needs)

/-! ## Types of values -/

/-- The inputs and constants of a graph are assigned values of their types. -/
def Fits (assign : Nat → Tensor α) (g : Graph) : Prop :=
  ∀ id node, g.node? id = some node → node.op.inputCount = 0 →
    node.signature.results = [(assign id).type]

theorem type_result {id : Nat} {op : Operator} {operands : List (Tensor α)} {type : TensorType}
    (accepted : op.HasTypes (operands.map Tensor.type) [type])
    (assigned : op.inputCount = 0 → (assign id).type = type) :
    (I.result assign id op operands).type = type := by
  cases op with
  | input => exact assigned rfl
  | constant => exact assigned rfl
  | output => exact absurd accepted.counts.2 Nat.one_ne_zero
  | transpose axes =>
      generalize same : operands.map Tensor.type = types at accepted
      cases accepted with
      | transpose permutes =>
          rcases List.map_eq_singleton_iff.mp same with ⟨x, rfl, rfl⟩
          exact Tensor.type_transpose permutes
  | reshape dims =>
      generalize same : operands.map Tensor.type = types at accepted
      cases accepted with
      | reshape shaped requested present =>
          rcases List.map_eq_singleton_iff.mp same with ⟨x, rfl, rfl⟩
          rcases TensorType.eq_of_ofDims? shaped with rfl
          apply Tensor.type_reshape
          exact (TensorType.prod_of_elements present).trans
            (TensorType.prod_of_elements requested).symm
  | unary | binary | clamp | conv2d | matMul | quantize | dequantize | accelUpload | accelDownload
  | accelConv2d => exact I.respects rfl accepted

/-- The value at an outlet has the type of the outlet. -/
theorem Solves.type (solves : I.Solves assign g values) (valid : g.Valid) (fits : Fits assign g)
    {outlet : Outlet} {type : TensorType} (typed : g.outputType outlet = .ok type) :
    (values outlet.node).type = type := by
  generalize deep : g.depth outlet.node = depth
  induction depth using Nat.strong_induction_on generalizing outlet type with
  | _ depth inductionHypothesis =>
      rcases Graph.outputType_iff.mp typed with ⟨node, found, entry⟩
      rcases valid.typed _ node found with ⟨sources, types, connected, operands, accepted⟩
      rcases accepted.eq_singleton entry with ⟨_, results⟩
      have producers := Graph.producers_eq connected
      have operandTypes : sources.map (fun source => (values source.node).type) = types := by
        apply operands.map_eq
        intro source member sourceType sourceTyped
        have needs := Graph.needs_of_mem_producers found (producers ▸ member)
        have shallower := Graph.depth_lt_of_needs valid.linked valid.acyclic needs
        exact inductionHypothesis _ (deep ▸ shallower) sourceTyped rfl
      rw [solves outlet.node node found, producers]
      refine type_result ?_ ?_
      · rw [List.map_map, ← results]
        exact operandTypes ▸ accepted
      · intro none
        have assigned := fits outlet.node node found none
        rw [Node.signature, results] at assigned
        exact (List.singleton_inj.mp assigned).symm

end Interpretation

/-! ## An interpretation -/

namespace Tensor

/-- The same elements under another type of data. -/
def retag (dtype : DataType) (x : Tensor fun _ => Nat) : Tensor fun _ => Nat :=
  { x with dtype := dtype }

def zeros (type : TensorType) : Tensor fun _ => Nat :=
  ⟨type.dtype, type.shape, List.replicate type.shape.prod 0, List.length_replicate⟩

end Tensor

namespace Interpretation

/-- Zeros of the type that a check has found. -/
def zerosOf : Checked TensorType → Tensor fun _ => Nat
  | .ok type => .zeros type
  | .error _ => .zeros ⟨.f32, []⟩

/-- Elements that nothing changes: conversions and activations keep them, and
whatever combines several operands gives zeros. -/
def unchanging : Operator → List (Tensor fun _ => Nat) → Tensor fun _ => Nat
  | .quantize _ dtype, [x] => x.retag dtype
  | .dequantize _, [x] => x.retag .f32
  | .binary function, [x, y] => zerosOf (Graph.binaryType function x.type y.type)
  | .conv2d convolution, [x, y, z] | .accelConv2d convolution, [x, y, z] =>
    zerosOf (Graph.convolvedType convolution x.type y.type z.type)
  | .matMul _, [x, y] => zerosOf (Graph.productType x.type y.type)
  | _, x :: _ => x
  | _, [] => .zeros ⟨.f32, []⟩

/-- The laws of interpretations can be met. -/
def ofUnchanging : Interpretation fun _ => Nat where
  compute := unchanging
  respects := by
    intro op operands result interpreted accepted
    generalize same : operands.map Tensor.type = types at accepted
    cases accepted with
    | input | constant | transpose | reshape => cases interpreted
    | unary | clamp | quantize | dequantize | accelUpload | accelDownload =>
        rcases List.map_eq_singleton_iff.mp same with ⟨x, rfl, rfl⟩
        rfl
    | binary fits | matMul fits =>
        rcases List.map_eq_cons_iff.mp same with ⟨x, _, rfl, rfl, last⟩
        rcases List.map_eq_singleton_iff.mp last with ⟨y, rfl, rfl⟩
        rw [unchanging, fits]
        rfl
    | conv2d _ fits | accelConv2d _ _ fits =>
        rcases List.map_eq_cons_iff.mp same with ⟨x, _, rfl, rfl, others⟩
        rcases List.map_eq_cons_iff.mp others with ⟨y, _, rfl, rfl, last⟩
        rcases List.map_eq_singleton_iff.mp last with ⟨z, rfl, rfl⟩
        rw [unchanging, fits]
        rfl
  relu _ := rfl
  conv2d_clamp _ _ := rfl
  matMul_clamp _ _ := rfl
  quantize_dequantize _ _ := rfl
  upload_download _ := rfl

end Interpretation

end TensorCompiler
