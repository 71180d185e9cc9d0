import TensorCompiler.Graph.Build
import TensorCompiler.Proofs.Failing
import TensorCompiler.Proofs.Graph.Editing

namespace TensorCompiler

/-!
# Why a construction fails

The look-ups in a graph and the single steps of an edit refuse, and never abort.  Of the
typed constructors only those abort that count something: a constant its bytes, a reshape
the elements before and after, and a convolution the rows and columns of its result.

All of this is said for any kind of failures that has the refusals in it.
-/

variable {α β : Type} {kind : Failure → Prop}

namespace Edit

variable {g : Graph}

@[simp] theorem failsOnly_ask {question : Graph → Checked α} :
    Stateful.FailsOnly kind (ask question) g ↔ (question g).FailsOnly kind := by
  unfold Stateful.FailsOnly Checked.FailsOnly ask
  cases question g with
  | ok value => simp
  | error failure => simp

/-- A question leaves the graph as it is. -/
theorem failsOnly_ask_bind {question : Graph → Checked α} {next : α → Edit β} :
    Stateful.FailsOnly kind (ask question >>= next) g ↔ (question g).FailsOnly kind ∧
      ∀ value, question g = .ok value → Stateful.FailsOnly kind (next value) g := by
  rw [Stateful.failsOnly_bind, failsOnly_ask]
  refine and_congr_right fun _ => ⟨?_, ?_⟩
  · intro later value answer
    exact later value g (ask_eq_ok.mpr ⟨answer, rfl⟩)
  · intro later value between asked
    rcases ask_eq_ok.mp asked with ⟨answer, rfl⟩
    exact later value answer

@[simp] theorem failsOnly_step {change : Graph → Checked (α × Graph)} :
    Stateful.FailsOnly kind (step change) g ↔ (change g).FailsOnly kind := by
  unfold Stateful.FailsOnly Checked.FailsOnly step
  cases change g with
  | ok value => simp
  | error failure => simp

end Edit

namespace Graph

open Checked

variable {g : Graph} (admits : Failure.Admits kind)

include admits

theorem failsOnly_node (id : Nat) : (g.node id).FailsOnly kind := by
  unfold node
  split
  · exact failsOnly_ok _
  · exact failsOnly_refuse.mpr (admits _ (by simp))

theorem failsOnly_source (node : Node) (index : Nat) : (node.source index).FailsOnly kind := by
  unfold Node.source
  split
  · exact failsOnly_ok _
  · exact failsOnly_refuse.mpr (admits _ (by simp))

theorem failsOnly_wire (outlet : Outlet) : (g.wire outlet).FailsOnly kind := by
  refine failsOnly_bind.mpr ⟨failsOnly_node admits _, fun node _ => ?_⟩
  split
  · exact failsOnly_ok _
  · exact failsOnly_refuse.mpr (admits _ (by simp))

theorem failsOnly_outputType (outlet : Outlet) : (g.outputType outlet).FailsOnly kind :=
  failsOnly_bind.mpr ⟨failsOnly_wire admits outlet, fun _ _ => failsOnly_pure _⟩

theorem failsOnly_typeWith (outlet : Outlet) (accepts : DataType → Bool) (context : String) :
    (g.typeWith outlet accepts context).FailsOnly kind := by
  refine failsOnly_bind.mpr ⟨failsOnly_outputType admits outlet, fun type _ => ?_⟩
  split
  · exact failsOnly_pure _
  · exact failsOnly_refuse.mpr (admits _ (by simp))

theorem failsOnly_connected (inlet : Inlet) (outlet : Outlet) :
    (g.connected inlet outlet).FailsOnly kind := by
  simp only [connected, failsOnly_bind, failsOnly_node admits, failsOnly_source admits,
    failsOnly_wire admits, true_and]
  intro consumer _ source _ producer _ _ _
  cases source with
  | none => simp [admits _]
  | some other => simp [admits _]

theorem failsOnly_addNode (op : Operator) (name : String) (types : List TensorType) :
    Stateful.FailsOnly kind (addNode op name types) g := by
  simp [addNode, admits _]

theorem failsOnly_connect (inlet : Inlet) (outlet : Outlet) :
    Stateful.FailsOnly kind (connect inlet outlet) g :=
  Edit.failsOnly_step.mpr (failsOnly_bind.mpr
    ⟨failsOnly_connected admits inlet outlet, fun _ _ => failsOnly_pure _⟩)

theorem failsOnly_updateNode (id : Nat) (change : Node → Node) :
    Stateful.FailsOnly kind (updateNode id change) g :=
  Edit.failsOnly_step.mpr (failsOnly_bind.mpr
    ⟨failsOnly_node admits id, fun _ _ => failsOnly_pure _⟩)

theorem failsOnly_connectFrom (id index : Nat) (operands : List Outlet) :
    Stateful.FailsOnly kind (connectFrom id index operands) g := by
  induction operands generalizing g index with
  | nil => exact Stateful.failsOnly_pure ()
  | cons operand rest inductionHypothesis =>
      exact Stateful.failsOnly_bind.mpr
        ⟨failsOnly_connect admits ⟨id, index⟩ operand, fun _ _ _ => inductionHypothesis (index + 1)⟩

theorem failsOnly_applyOperator (op : Operator) (operands : List Outlet) (type : TensorType) :
    Stateful.FailsOnly kind (applyOperator op operands type) g := by
  simp only [applyOperator, Stateful.failsOnly_bind, Stateful.failsOnly_get,
    failsOnly_addNode admits, failsOnly_connectFrom admits, Stateful.failsOnly_pure, true_and]
  simp

/-! ## Typed constructors -/

section

variable (value first second image weights bias : Outlet)

theorem failsOnly_input (name : String) (type : TensorType) :
    Stateful.FailsOnly kind (input name type) g :=
  Stateful.failsOnly_bind.mpr
    ⟨failsOnly_addNode admits _ _ _, fun _ _ _ => Stateful.failsOnly_pure _⟩

theorem failsOnly_output (name : String) : Stateful.FailsOnly kind (output name value) g := by
  simp only [output, Stateful.failsOnly_bind, Edit.failsOnly_ask, failsOnly_outputType admits,
    failsOnly_addNode admits, failsOnly_connect admits, Stateful.failsOnly_pure, implies_true,
    and_self]

theorem failsOnly_constant {type : TensorType} (sized : type.bytes.FailsOnly kind)
    (data : List UInt8) : Stateful.FailsOnly kind (constant type data) g := by
  simp only [constant, Stateful.failsOnly_bind, Stateful.failsOnly_lift, Stateful.failsOnly_ite,
    Stateful.failsOnly_refuse, failsOnly_applyOperator admits, sized, implies_true, true_and]
  exact fun _ _ _ _ => admits _ (by simp)

theorem failsOnly_transpose (axes : List Nat) :
    Stateful.FailsOnly kind (transpose value axes) g := by
  simp only [transpose, Stateful.failsOnly_bind, Edit.failsOnly_ask, Stateful.failsOnly_ite,
    Stateful.failsOnly_refuse, failsOnly_outputType admits, failsOnly_applyOperator admits,
    implies_true, true_and]
  exact fun _ _ _ _ => admits _ (by simp)

theorem failsOnly_reshape {dims : List Nat} (requested : (Word.product dims).FailsOnly kind)
    (present : ∀ type, g.outputType value = .ok type → type.elements.FailsOnly kind) :
    Stateful.FailsOnly kind (reshape value dims) g := by
  refine Edit.failsOnly_ask_bind.mpr ⟨failsOnly_outputType admits value, fun type typed => ?_⟩
  cases shaped : TensorType.ofDims? type.dtype dims with
  | none => exact Stateful.failsOnly_refuse.mpr (admits _ (by simp))
  | some reshaped =>
      have counted : reshaped.elements.FailsOnly kind := by
        unfold TensorType.ofDims? at shaped
        split at shaped
        · exact Option.some.inj shaped ▸ requested
        · cases shaped
      simp only [Stateful.failsOnly_bind, Stateful.failsOnly_lift, Stateful.failsOnly_ite,
        Stateful.failsOnly_refuse, failsOnly_applyOperator admits, counted, present type typed,
        implies_true, true_and]
      exact fun _ _ _ _ _ _ _ => admits _ (by simp)

theorem failsOnly_unary (function : UnaryFunction) :
    Stateful.FailsOnly kind (unary function value) g := by
  simp only [unary, Stateful.failsOnly_bind, Edit.failsOnly_ask, failsOnly_outputType admits,
    failsOnly_applyOperator admits, implies_true, and_self]

theorem failsOnly_binaryType (function : BinaryFunction) (firstType secondType : TensorType) :
    (binaryType function firstType secondType).FailsOnly kind := by
  simp [binaryType, admits _]

theorem failsOnly_binary (function : BinaryFunction) :
    Stateful.FailsOnly kind (binary function first second) g := by
  simp only [binary, Stateful.failsOnly_bind, Edit.failsOnly_ask, Stateful.failsOnly_lift,
    failsOnly_outputType admits, failsOnly_binaryType admits, failsOnly_applyOperator admits,
    implies_true, and_self]

theorem failsOnly_clamp (range : ClampRange) :
    Stateful.FailsOnly kind (clamp value range) g := by
  simp only [clamp, Stateful.failsOnly_bind, Edit.failsOnly_ask, failsOnly_outputType admits,
    failsOnly_applyOperator admits, implies_true, and_self]

theorem failsOnly_convolvedTypeAt {convolution : Convolution}
    (convolved : ∀ imageType weightsType biasType, g.outputType image = .ok imageType →
      g.outputType weights = .ok weightsType →
      (convolvedType convolution imageType weightsType biasType).FailsOnly kind) :
    (g.convolvedTypeAt convolution image weights bias).FailsOnly kind := by
  simp only [convolvedTypeAt, failsOnly_bind, failsOnly_outputType admits, true_and]
  exact fun _ imageTyped _ weightsTyped _ _ => convolved _ _ _ imageTyped weightsTyped

theorem failsOnly_conv2d {convolution : Convolution}
    (convolved : ∀ imageType weightsType biasType, g.outputType image = .ok imageType →
      g.outputType weights = .ok weightsType →
      (convolvedType convolution imageType weightsType biasType).FailsOnly kind) :
    Stateful.FailsOnly kind (conv2d image weights bias convolution) g := by
  simp only [conv2d, Edit.failsOnly_ask_bind, failsOnly_typeWith admits,
    failsOnly_convolvedTypeAt admits image weights bias convolved,
    failsOnly_applyOperator admits, implies_true, and_self]

theorem failsOnly_accelConv2d {convolution : Convolution}
    (convolved : ∀ imageType weightsType biasType, g.outputType image = .ok imageType →
      g.outputType weights = .ok weightsType →
      (convolvedType convolution imageType weightsType biasType).FailsOnly kind) :
    Stateful.FailsOnly kind (accelConv2d image weights bias convolution) g := by
  simp only [accelConv2d, Edit.failsOnly_ask_bind, Stateful.failsOnly_ite,
    Stateful.failsOnly_refuse, failsOnly_typeWith admits, failsOnly_outputType admits,
    failsOnly_convolvedTypeAt admits image weights bias convolved,
    failsOnly_applyOperator admits, implies_true, and_true, true_and]
  exact fun _ _ _ _ _ => admits _ (by simp)

theorem failsOnly_productType (firstType secondType : TensorType) :
    (productType firstType secondType).FailsOnly kind := by
  unfold productType
  split <;> simp [admits _]

theorem failsOnly_matMul (range : ClampRange) :
    Stateful.FailsOnly kind (matMul first second range) g := by
  simp only [matMul, Stateful.failsOnly_bind, Edit.failsOnly_ask, Stateful.failsOnly_lift,
    failsOnly_outputType admits, failsOnly_productType admits, failsOnly_applyOperator admits,
    implies_true, and_self]

theorem failsOnly_quantize (quantization : Quantization) (dtype : DataType) :
    Stateful.FailsOnly kind (quantize value quantization dtype) g := by
  simp only [quantize, Stateful.failsOnly_bind, Edit.failsOnly_ask, Stateful.failsOnly_ite,
    Stateful.failsOnly_refuse, failsOnly_typeWith admits, failsOnly_applyOperator admits,
    implies_true, true_and]
  exact fun _ _ _ _ => admits _ (by simp)

theorem failsOnly_dequantize (quantization : Quantization) :
    Stateful.FailsOnly kind (dequantize value quantization) g := by
  simp only [dequantize, Stateful.failsOnly_bind, Edit.failsOnly_ask, failsOnly_typeWith admits,
    failsOnly_applyOperator admits, implies_true, and_self]

theorem failsOnly_accelUpload : Stateful.FailsOnly kind (accelUpload value) g := by
  simp only [accelUpload, Stateful.failsOnly_bind, Edit.failsOnly_ask, failsOnly_typeWith admits,
    failsOnly_applyOperator admits, implies_true, and_self]

theorem failsOnly_accelDownload : Stateful.FailsOnly kind (accelDownload value) g := by
  simp only [accelDownload, Stateful.failsOnly_bind, Edit.failsOnly_ask,
    failsOnly_outputType admits, failsOnly_applyOperator admits, implies_true, and_self]

end

end Graph

end TensorCompiler
