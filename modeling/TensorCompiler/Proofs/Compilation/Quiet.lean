import TensorCompiler.Proofs.Construction.Reasons
import TensorCompiler.Proofs.Rewriting.Replacement

namespace TensorCompiler

/-!
# Computations that do not report an overlap

Only the check of a placement reports that two buffers overlap.  Whatever else
takes part in compiling fails, if at all, for another reason; such a computation
is called quiet.  Being quiet passes from the parts of a computation to the whole,
so a function is quiet because the functions that it calls are.
-/

variable {α β σ : Type}

/-! ## Parts and wholes -/

/-- A computation does not report an overlap. -/
abbrev Checked.Quiet (run : Checked α) : Prop :=
  run.FailsOnly fun failure => ¬ failure.IsOverlap

theorem Failure.admits_quiet : Failure.Admits fun failure => ¬ failure.IsOverlap :=
  fun _ other => other

namespace Stateful

/-- A computation does not report an overlap, in whatever state it starts. -/
def Quiet (run : EStateM Failure σ α) : Prop :=
  ∀ state, FailsOnly (fun failure => ¬ failure.IsOverlap) run state

theorem quiet_of_ok {run : EStateM Failure σ α}
    (succeeds : ∀ state, ∃ value after, run state = .ok value after) : Quiet run := by
  intro state
  rcases succeeds state with ⟨_, _, done⟩
  exact failsOnly_of_ok done

theorem quiet_pure (value : α) : Quiet (pure value : EStateM Failure σ α) :=
  fun _ => failsOnly_pure value

theorem quiet_get : Quiet (get : EStateM Failure σ σ) :=
  fun _ => failsOnly_get

theorem quiet_set (value : σ) : Quiet (set value : EStateM Failure σ PUnit) :=
  quiet_of_ok fun _ => ⟨_, _, rfl⟩

theorem quiet_modify (change : σ → σ) : Quiet (modify change : EStateM Failure σ PUnit) :=
  quiet_of_ok fun _ => ⟨_, _, rfl⟩

theorem quiet_refuse {error : Error}
    (other : ∀ first second kind, error ≠ .overlappingBuffers first second kind) :
    Quiet (refuse error : EStateM Failure σ α) := by
  intro state
  simpa using other

theorem quiet_lift {run : Checked α} (quiet : run.Quiet) :
    Quiet (liftM run : EStateM Failure σ α) :=
  fun _ => failsOnly_lift.mpr quiet

theorem Quiet.bind {first : EStateM Failure σ α} {next : α → EStateM Failure σ β}
    (firstQuiet : Quiet first) (nextQuiet : ∀ value, Quiet (next value)) :
    Quiet (first >>= next) :=
  fun state => failsOnly_bind.mpr
    ⟨firstQuiet state, fun value between _ => nextQuiet value between⟩

theorem quiet_ite {condition : Prop} [Decidable condition] {first second : EStateM Failure σ α}
    (firstQuiet : Quiet first) (secondQuiet : Quiet second) :
    Quiet (if condition then first else second) :=
  fun state => failsOnly_ite.mpr ⟨fun _ => firstQuiet state, fun _ => secondQuiet state⟩

theorem quiet_forM {body : α → EStateM Failure σ PUnit} (each : ∀ item, Quiet (body item))
    (items : List α) : Quiet (items.forM body) :=
  failsOnly_forM each items

end Stateful

/-! ## Numbers and lookups -/

section

open Checked

theorem Checked.RefusesNothing.quiet {run : Checked α} (refusesNothing : run.RefusesNothing) :
    run.Quiet := by
  rintro failure failed ⟨first, second, kind, rfl⟩
  exact refusesNothing _ failed

namespace Word

@[simp] theorem quiet_add (first second : Nat) : (add first second).Quiet :=
  (refusesNothing_add first second).quiet

@[simp] theorem quiet_mul (first second : Nat) : (mul first second).Quiet :=
  (refusesNothing_mul first second).quiet

@[simp] theorem quiet_sub (first second : Nat) : (sub first second).Quiet :=
  (refusesNothing_sub first second).quiet

@[simp] theorem quiet_product (factors : List Nat) : (product factors).Quiet :=
  (refusesNothing_product factors).quiet

end Word

@[simp] theorem TensorType.quiet_elements (type : TensorType) : type.elements.Quiet :=
  type.refusesNothing_elements.quiet

@[simp] theorem TensorType.quiet_bytes (type : TensorType) : type.bytes.Quiet :=
  type.refusesNothing_bytes.quiet

@[simp] theorem quiet_entryAt (entries : List α) (index : Nat) : (entryAt entries index).Quiet := by
  unfold entryAt
  split <;> simp

namespace Graph

variable (g : Graph) (outlet : Outlet) (inlet : Inlet)

@[simp] theorem quiet_node (id : Nat) : (g.node id).Quiet :=
  failsOnly_node Failure.admits_quiet id

@[simp] theorem quiet_wire : (g.wire outlet).Quiet :=
  failsOnly_wire Failure.admits_quiet outlet

@[simp] theorem quiet_outputType : (g.outputType outlet).Quiet :=
  failsOnly_outputType Failure.admits_quiet outlet

@[simp] theorem quiet_connectedProducer : (g.connectedProducer inlet).Quiet := by
  simp only [connectedProducer, failsOnly_bind, failsOnly_node Failure.admits_quiet,
    failsOnly_source Failure.admits_quiet, true_and]
  intro _ _ source _
  cases source <;> simp

@[simp] theorem quiet_convolvedType (convolution : Convolution) (image weights bias : TensorType) :
    (convolvedType convolution image weights bias).Quiet := by
  unfold convolvedType
  split <;> simp [paddedExtent]

end Graph

end

/-! ## Edits -/

open Stateful (Quiet)

namespace Edit

theorem quiet_ask {question : Graph → Checked α} (quiet : ∀ g, (question g).Quiet) :
    Quiet (ask question) :=
  fun g => failsOnly_ask.mpr (quiet g)

theorem quiet_step {change : Graph → Checked (α × Graph)} (quiet : ∀ g, (change g).Quiet) :
    Quiet (step change) :=
  fun g => failsOnly_step.mpr (quiet g)

end Edit

namespace Graph

theorem quiet_connect (inlet : Inlet) (outlet : Outlet) : Quiet (connect inlet outlet) :=
  fun _ => failsOnly_connect Failure.admits_quiet inlet outlet

theorem quiet_updateMarks (id : Nat) (change : Marks → Marks) : Quiet (updateMarks id change) :=
  fun _ => failsOnly_updateNode Failure.admits_quiet id _

theorem quiet_redirect (new : Outlet) (inlets : List Inlet) : Quiet (redirect new inlets) := by
  induction inlets with
  | nil => exact Stateful.quiet_pure ()
  | cons inlet rest inductionHypothesis =>
      exact (Edit.quiet_step (by simp)).bind fun _ => (quiet_connect inlet new).bind fun _ =>
        inductionHypothesis

theorem quiet_replaceUses (old new : Outlet) : Quiet (replaceUses old new) := by
  apply Stateful.quiet_ite (Stateful.quiet_pure ())
  exact (Edit.quiet_ask (by simp)).bind fun wire => (Stateful.quiet_modify _).bind fun _ =>
    quiet_redirect new wire.readers

theorem quiet_removeUnreachable : Quiet removeUnreachable :=
  Stateful.quiet_of_ok fun g => ⟨_, _, removeUnreachable_eq g⟩

/-! ## Typed constructors -/

section

variable (value first second image weights bias : Outlet)

theorem quiet_constant (type : TensorType) (data : List UInt8) :
    Quiet (constant type data) :=
  fun _ => failsOnly_constant Failure.admits_quiet (by simp) data

theorem quiet_transpose (axes : List Nat) : Quiet (transpose value axes) :=
  fun _ => failsOnly_transpose Failure.admits_quiet value axes

theorem quiet_reshape (dims : List Nat) : Quiet (reshape value dims) :=
  fun _ => failsOnly_reshape Failure.admits_quiet value (by simp) (by simp)

theorem quiet_clamp (range : ClampRange) : Quiet (clamp value range) :=
  fun _ => failsOnly_clamp Failure.admits_quiet value range

theorem quiet_conv2d (convolution : Convolution) :
    Quiet (conv2d image weights bias convolution) :=
  fun _ => failsOnly_conv2d Failure.admits_quiet image weights bias (by simp)

theorem quiet_matMul (range : ClampRange) : Quiet (matMul first second range) :=
  fun _ => failsOnly_matMul Failure.admits_quiet first second range

theorem quiet_quantize (quantization : Quantization) (dtype : DataType) :
    Quiet (quantize value quantization dtype) :=
  fun _ => failsOnly_quantize Failure.admits_quiet value quantization dtype

theorem quiet_dequantize (quantization : Quantization) :
    Quiet (dequantize value quantization) :=
  fun _ => failsOnly_dequantize Failure.admits_quiet value quantization

theorem quiet_accelUpload : Quiet (accelUpload value) :=
  fun _ => failsOnly_accelUpload Failure.admits_quiet value

theorem quiet_accelDownload : Quiet (accelDownload value) :=
  fun _ => failsOnly_accelDownload Failure.admits_quiet value

theorem quiet_accelConv2d (convolution : Convolution) :
    Quiet (accelConv2d image weights bias convolution) :=
  fun _ => failsOnly_accelConv2d Failure.admits_quiet image weights bias (by simp)

end

end Graph

end TensorCompiler
