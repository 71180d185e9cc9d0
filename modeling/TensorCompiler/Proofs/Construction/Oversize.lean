import TensorCompiler.Proofs.Construction.Reasons
import TensorCompiler.Proofs.Construction.Transcription
import TensorCompiler.Proofs.Evaluation.Tensors

namespace TensorCompiler

/-!
# Numbers that are too large

A script is refused if a line asks for something that cannot be done, and its reading
is aborted if a number is no word.  This module says which numbers can be too large: how
many elements or bytes a tensor has, and how far the image of a convolution extends with
its padding.  Nothing else aborts the reading.

A constant is written out in full while its line is read.  The reading is aborted as well
if its bytes are more than can be held together.
-/

open Checked Failure

variable {large : Prop}

/-! ## Sizes -/

namespace TensorType

/-- The elements of a tensor, or its bytes, are more than can be counted. -/
def Uncountable (type : TensorType) : Prop :=
  Word.Outgrows type.shape ∨ Word.largest < type.shape.prod * type.dtype.size

theorem failsOnly_elements (type : TensorType) :
    type.elements.FailsOnly (Excused (Word.Outgrows type.shape)) :=
  Word.failsOnly_product type.shape

theorem failsOnly_bytes (type : TensorType) :
    type.bytes.FailsOnly (Excused type.Uncountable) := by
  refine failsOnly_bind.mpr ⟨type.failsOnly_elements.enlarge Or.inl, fun count counted => ?_⟩
  rw [Word.mul, Word.failsOnly_check, ← prod_of_elements counted]
  exact Or.inr

theorem prod_of_bytes {type : TensorType} {size : Nat} (sized : type.bytes = .ok size) :
    type.shape.prod * type.dtype.size = size := by
  rcases Checked.bind_eq_ok.mp sized with ⟨count, counted, multiplied⟩
  rw [prod_of_elements counted]
  exact (Word.mul_eq_ok.mp multiplied).1

end TensorType

/-! ## Statements -/

/-- The image of a convolution with its padding, or the result, extends too far along
one axis. -/
def Graph.Overextends (extent kernel stride padding : Nat) : Prop :=
  Word.largest < extent + 2 * padding ∨
    Word.largest < (extent + 2 * padding - kernel) / stride + 1

/-- A number that a statement is about is too large. -/
inductive Statement.Oversized (g : Graph) : Statement → Prop
  | constant {type : TensorType} {data : List UInt8} (uncountable : type.Uncountable) :
      Oversized g (.constant type data)
  | reshape {value : Outlet} {dims : List Nat} (outgrows : Word.Outgrows dims) :
      Oversized g (.reshape value dims)
  | reshaped {value : Outlet} {dims : List Nat} {type : TensorType}
      (typed : g.outputType value = .ok type) (outgrows : Word.Outgrows type.shape) :
      Oversized g (.reshape value dims)
  | conv2d {image weights bias : Outlet} {convolution : Convolution}
      {imageType weightsType : TensorType}
      {batch channels height width features depth kernelHeight kernelWidth : Nat}
      (imageTyped : g.outputType image = .ok imageType)
      (weightsTyped : g.outputType weights = .ok weightsType)
      (imageShape : imageType.shape = [batch, channels, height, width])
      (weightsShape : weightsType.shape = [features, depth, kernelHeight, kernelWidth])
      (overextends :
        Graph.Overextends height kernelHeight convolution.strideHeight
          convolution.paddingHeight ∨
        Graph.Overextends width kernelWidth convolution.strideWidth
          convolution.paddingWidth) :
      Oversized g (.conv2d image weights bias convolution)

namespace Graph

theorem failsOnly_paddedExtent {extent padding : Nat}
    (overextended : Word.largest < extent + 2 * padding → large) :
    (paddedExtent extent padding).FailsOnly (Excused large) := by
  refine failsOnly_bind.mpr ⟨?_, fun doubled done => ?_⟩
  · rw [Word.mul, Word.failsOnly_check]
    intro alone
    exact overextended (Nat.lt_of_lt_of_le alone (Nat.le_add_left _ _))
  · rcases Word.mul_eq_ok.mp done with ⟨rfl, _⟩
    exact Word.failsOnly_check.mpr overextended

theorem eq_of_paddedExtent {extent padding result : Nat}
    (done : paddedExtent extent padding = .ok result) : extent + 2 * padding = result := by
  rcases Checked.bind_eq_ok.mp done with ⟨doubled, multiplied, added⟩
  rw [(Word.mul_eq_ok.mp multiplied).1]
  exact (Word.add_eq_ok.mp added).1

/-- The type of a convolution is found or refused, or something extends too far. -/
theorem failsOnly_convolvedType {convolution : Convolution} {image weights bias : TensorType}
    (overextended : ∀ {batch channels height width features depth kernelHeight kernelWidth},
      image.shape = [batch, channels, height, width] →
      weights.shape = [features, depth, kernelHeight, kernelWidth] →
      Overextends height kernelHeight convolution.strideHeight convolution.paddingHeight ∨
        Overextends width kernelWidth convolution.strideWidth convolution.paddingWidth → large) :
    (convolvedType convolution image weights bias).FailsOnly (Excused large) := by
  unfold convolvedType
  split
  · next imageShape weightsShape =>
    have reason := overextended imageShape weightsShape
    simp only [failsOnly_guard, failsOnly_bind, failsOnly_pure, Failure.excused_refused,
      implies_true, and_true, true_and, Word.add, Word.failsOnly_check]
    intro _ _
    refine ⟨failsOnly_paddedExtent fun far => reason (.inl (.inl far)), ?_⟩
    intro paddedHeight high _
    refine ⟨failsOnly_paddedExtent fun far => reason (.inr (.inl far)), ?_⟩
    intro paddedWidth wide _
    rw [← eq_of_paddedExtent high, ← eq_of_paddedExtent wide]
    exact ⟨fun far => reason (.inl (.inr far)), fun _ _ far => reason (.inr (.inr far))⟩
  · exact failsOnly_refuse.mpr (Failure.excused_refused _)
  · exact failsOnly_refuse.mpr (Failure.excused_refused _)

end Graph

/-- Carrying out a statement succeeds or is refused, or a number is too large. -/
theorem Statement.failsOnly_build (name : String) (statement : Statement) (g : Graph) :
    Stateful.FailsOnly (Excused (statement.Oversized g)) (statement.build name) g := by
  have admits : Admits (Excused (statement.Oversized g)) := admits_excused
  cases statement with
  | input type => exact Stateful.failsOnly_map.mpr (Graph.failsOnly_input admits name type)
  | output value =>
      exact Stateful.failsOnly_bind.mpr
        ⟨Graph.failsOnly_output admits value name, fun _ _ _ => Stateful.failsOnly_pure none⟩
  | constant type data =>
      exact Stateful.failsOnly_map.mpr
        (Graph.failsOnly_constant admits (type.failsOnly_bytes.enlarge .constant) data)
  | transpose value axes =>
      exact Stateful.failsOnly_map.mpr (Graph.failsOnly_transpose admits value axes)
  | reshape value dims =>
      refine Stateful.failsOnly_map.mpr (Graph.failsOnly_reshape admits value ?_ ?_)
      · exact (Word.failsOnly_product dims).enlarge .reshape
      · exact fun type typed => type.failsOnly_elements.enlarge (.reshaped typed)
  | clamp value range =>
      exact Stateful.failsOnly_map.mpr (Graph.failsOnly_clamp admits value range)
  | conv2d image weights bias convolution =>
      refine Stateful.failsOnly_map.mpr (Graph.failsOnly_conv2d admits image weights bias ?_)
      intro imageType weightsType biasType imageTyped weightsTyped
      exact Graph.failsOnly_convolvedType
        fun imageShape weightsShape => .conv2d imageTyped weightsTyped imageShape weightsShape
  | matMul first second =>
      exact Stateful.failsOnly_map.mpr (Graph.failsOnly_matMul admits first second .unbounded)
  | quantize value quantization dtype =>
      exact Stateful.failsOnly_map.mpr (Graph.failsOnly_quantize admits value quantization dtype)
  | dequantize value quantization =>
      exact Stateful.failsOnly_map.mpr (Graph.failsOnly_dequantize admits value quantization)
  | unary function value =>
      exact Stateful.failsOnly_map.mpr (Graph.failsOnly_unary admits value function)
  | binary function first second =>
      exact Stateful.failsOnly_map.mpr (Graph.failsOnly_binary admits first second function)

/-! ## Arguments -/

namespace Script

section

variable {α β : Type} {kind : Failure → Prop} {words : List (List Char)}

theorem reader_failsOnly_bind {first : ArgumentReader α} {next : α → ArgumentReader β} :
    FailsOnly kind ((first >>= next) words) ↔ FailsOnly kind (first words) ∧
      ∀ value rest, first words = .ok (value, rest) → FailsOnly kind (next value rest) := by
  change FailsOnly kind (first words >>= fun read => next read.1 read.2) ↔ _
  simp only [failsOnly_bind, Prod.forall]

theorem reader_failsOnly_pure (value : α) :
    FailsOnly kind ((pure value : ArgumentReader α) words) :=
  failsOnly_ok (value, words)

theorem reader_failsOnly_lift {run : Checked α} :
    FailsOnly kind ((liftM run : ArgumentReader α) words) ↔ run.FailsOnly kind := by
  change FailsOnly kind (run >>= fun value => pure (value, words)) ↔ _
  simp only [failsOnly_bind, failsOnly_pure, implies_true, and_true]

theorem reader_failsOnly_refuse {error : Error} :
    FailsOnly kind ((refuse error : ArgumentReader α) words) ↔ kind (.refused error) :=
  failsOnly_error

theorem failsOnly_nextWord? : FailsOnly kind (nextWord? words) := by
  cases words <;> exact failsOnly_ok _

end

variable (context : LineContext) (words : List (List Char))

namespace LineContext

theorem failsOnly_fail {α : Type} (fault : LineFault) :
    FailsOnly (Excused large) (context.fail fault : Checked α) :=
  failsOnly_refuse.mpr (Failure.excused_refused _)

theorem failsOnly_word : FailsOnly (Excused large) (context.word words) := by
  cases words with
  | nil => exact context.failsOnly_fail _
  | cons word rest => exact failsOnly_ok _

theorem failsOnly_resolve (word : List Char) :
    FailsOnly (Excused large) (context.resolve word) := by
  unfold resolve
  split
  · exact failsOnly_ok _
  · exact failsOnly_refuse.mpr (Failure.excused_refused _)

theorem failsOnly_numbers (word : List Char) :
    FailsOnly (Excused large) (context.numbers word) := by
  unfold numbers
  refine failsOnly_ite.mpr ⟨fun _ => failsOnly_pure _, fun _ => failsOnly_mapM (fun piece => ?_) _⟩
  split
  · exact failsOnly_ok _
  · exact context.failsOnly_fail _

theorem failsOnly_decimal (word : List Char) :
    FailsOnly (Excused large) (context.decimal word) := by
  unfold decimal
  split
  · exact failsOnly_ok _
  · exact context.failsOnly_fail _

theorem failsOnly_elementType (word : List Char) :
    FailsOnly (Excused large) (context.elementType word) := by
  unfold elementType
  split
  · exact failsOnly_ok _
  · exact context.failsOnly_fail _

theorem failsOnly_value : FailsOnly (Excused large) (context.value words) := by
  simp only [value, reader_failsOnly_bind, reader_failsOnly_lift, failsOnly_word,
    failsOnly_resolve, implies_true, and_self]

theorem failsOnly_tensorType : FailsOnly (Excused large) (context.tensorType words) := by
  simp only [tensorType, reader_failsOnly_bind, reader_failsOnly_lift, failsOnly_word,
    failsOnly_elementType, failsOnly_numbers, true_and]
  intro _ _ _ dtype _ _ _ _ _ dims _ _
  cases TensorType.ofDims? dtype dims with
  | none => exact reader_failsOnly_refuse.mpr (Failure.excused_refused _)
  | some type => exact reader_failsOnly_pure type

theorem failsOnly_quantization : FailsOnly (Excused large) (context.quantization words) := by
  simp only [quantization, reader_failsOnly_bind, reader_failsOnly_lift, reader_failsOnly_pure,
    failsOnly_word, failsOnly_decimal, implies_true, and_self]

theorem failsOnly_pair? (fault : LineFault) :
    FailsOnly (Excused large) (context.pair? fault words) := by
  simp only [pair?, reader_failsOnly_bind, failsOnly_nextWord?, true_and]
  intro word? rest _
  cases word? with
  | none => exact reader_failsOnly_pure none
  | some word =>
      simp only [reader_failsOnly_bind, reader_failsOnly_lift, failsOnly_numbers, true_and]
      intro numbers later _
      split
      · exact reader_failsOnly_pure _
      · exact reader_failsOnly_lift.mpr (context.failsOnly_fail fault)

theorem failsOnly_convolution : FailsOnly (Excused large) (context.convolution words) := by
  simp only [convolution, reader_failsOnly_bind, reader_failsOnly_pure, failsOnly_pair?,
    implies_true, and_self]

theorem failsOnly_elementwise (opcode : String) :
    FailsOnly (Excused large) (context.elementwise opcode words) := by
  cases unary : UnaryFunction.ofName? opcode with
  | some function =>
      simp only [elementwise, unary, reader_failsOnly_bind, reader_failsOnly_pure,
        failsOnly_value, implies_true, and_self]
  | none =>
      cases binary : BinaryFunction.ofName? opcode with
      | some function =>
          simp only [elementwise, unary, binary, reader_failsOnly_bind, reader_failsOnly_pure,
            failsOnly_value, implies_true, and_self]
      | none =>
          simp only [elementwise, unary, binary, reader_failsOnly_refuse,
            Failure.excused_refused]

end LineContext

/-! ## Constants -/

/-- A constant of a type has more bytes than can be counted or held. -/
def Unwieldy (type : TensorType) : Prop :=
  type.Uncountable ∨ mostBytes < type.shape.prod * type.dtype.size

theorem failsOnly_repeated {count : Nat} {bytes : List UInt8}
    (tooMany : mostBytes < count * bytes.length → large) :
    FailsOnly (Excused large) (repeated count bytes) := by
  unfold repeated
  refine failsOnly_ite.mpr ⟨fun _ => failsOnly_pure _, fun exceeds => ?_⟩
  exact failsOnly_abort.mpr (Failure.excused_overflow.mpr (tooMany (Nat.lt_of_not_le exceeds)))

namespace LineContext

/-- The elements of a constant are counted and then written out one by one. -/
theorem failsOnly_filled (type : TensorType) (fill : Binary32) :
    FailsOnly (Excused (Unwieldy type)) (context.filled type fill) := by
  refine failsOnly_bind.mpr
    ⟨type.failsOnly_elements.enlarge (Or.inl ∘ Or.inl), fun count counted => ?_⟩
  rcases type with ⟨dtype, shape⟩
  rcases TensorType.prod_of_elements counted with rfl
  cases dtype with
  | f32 => exact failsOnly_repeated Or.inr
  | i32 => exact failsOnly_repeated Or.inr
  | i8 => exact failsOnly_repeated Or.inr
  | u8 => exact failsOnly_repeated Or.inr
  | f16 =>
      refine failsOnly_ite.mpr ⟨fun _ => failsOnly_bind.mpr ⟨?_, fun size sized => ?_⟩,
        fun _ => context.failsOnly_fail _⟩
      · exact (TensorType.failsOnly_bytes _).enlarge Or.inl
      · rcases TensorType.prod_of_bytes sized with rfl
        apply failsOnly_repeated
        rw [List.length_singleton, Nat.mul_one]
        exact Or.inr

theorem failsOnly_constant
    (unwieldy : ∀ type rest, context.tensorType words = .ok (type, rest) → Unwieldy type → large) :
    FailsOnly (Excused large) (context.constant words) := by
  simp only [constant, reader_failsOnly_bind, failsOnly_tensorType, failsOnly_nextWord?, true_and]
  intro type rest read word? later _
  have written (fill : Binary32) : (context.filled type fill).FailsOnly (Excused large) :=
    (context.failsOnly_filled type fill).enlarge (unwieldy type rest read)
  cases word? with
  | none =>
      simp only [reader_failsOnly_bind, reader_failsOnly_lift, reader_failsOnly_pure, written,
        implies_true, and_self]
  | some word =>
      simp only [reader_failsOnly_bind, reader_failsOnly_lift, reader_failsOnly_pure,
        failsOnly_decimal, written, implies_true, and_self]

/-- The arguments of a line are read or refused, or they ask for too large a constant. -/
theorem failsOnly_statement (opcode : String)
    (unwieldy : opcode = "const" →
      ∀ type rest, context.tensorType words = .ok (type, rest) → Unwieldy type → large) :
    FailsOnly (Excused large) (context.statement opcode words) := by
  unfold statement
  split
  case h_3 => exact context.failsOnly_constant words (unwieldy rfl)
  case h_11 => exact context.failsOnly_elementwise words _
  all_goals
    simp only [reader_failsOnly_bind, reader_failsOnly_lift, reader_failsOnly_pure,
      failsOnly_value, failsOnly_word, failsOnly_tensorType, failsOnly_numbers,
      failsOnly_decimal, failsOnly_convolution, failsOnly_quantization, failsOnly_elementType,
      implies_true, and_self]

end LineContext

/-! ## Lines -/

/-- A number that the opcode and the arguments of a line are about is too large. -/
inductive LineContext.Overasks (context : LineContext) (g : Graph) (opcode : String)
    (arguments : List (List Char)) : Prop
  | constant {type : TensorType} {rest : List (List Char)} (isConstant : opcode = "const")
      (read : context.tensorType arguments = .ok (type, rest)) (unwieldy : Unwieldy type)
  | statement {statement : Statement} {rest : List (List Char)}
      (read : context.statement opcode arguments = .ok (statement, rest))
      (oversized : statement.Oversized g)

/-- A number that a line is about is too large. -/
def Overasks (line : Nat) (bytes : List UInt8) (state : ImportState) : Prop :=
  ∃ text name opcode arguments, Text.decode? bytes = some text ∧
    (Text.words text).filter (fun word => !isFlag word) = name :: opcode :: arguments ∧
    LineContext.Overasks ⟨line, state.names⟩ state.graph (String.ofList opcode) arguments

theorem failsOnly_edit {α : Type} {kind : Failure → Prop} {state : ImportState}
    {change : Edit α} :
    (state.edit change).FailsOnly kind ↔ Stateful.FailsOnly kind change state.graph := by
  unfold ImportState.edit FailsOnly Stateful.FailsOnly
  cases change state.graph with
  | ok value graph => simp
  | error failure graph => simp

theorem failsOnly_setFlags (line id : Nat) (flags : List (List Char)) (g : Graph) :
    Stateful.FailsOnly (Excused large) (setFlags line id flags) g := by
  induction flags generalizing g with
  | nil => exact Stateful.failsOnly_pure ()
  | cons flag rest inductionHypothesis =>
      simp only [setFlags, flagMarks, Graph.updateMarks, Stateful.failsOnly_bind,
        Stateful.failsOnly_lift, failsOnly_ite, failsOnly_pure, failsOnly_refuse,
        Failure.excused_refused, Graph.failsOnly_updateNode admits_excused, inductionHypothesis,
        implies_true, and_self]

theorem failsOnly_nameValue (line : Nat) (name : String) (flags : List (List Char))
    (outlet : Outlet) (g : Graph) :
    Stateful.FailsOnly (Excused large) (nameValue line name flags outlet) g :=
  Stateful.failsOnly_bind.mpr ⟨Graph.failsOnly_updateNode admits_excused _ _,
    fun _ between _ => failsOnly_setFlags line outlet.node flags between⟩

theorem failsOnly_readWords {line : Nat} {flags words : List (List Char)} {state : ImportState}
    (overasked : ∀ name opcode arguments, words = name :: opcode :: arguments →
      LineContext.Overasks ⟨line, state.names⟩ state.graph (String.ofList opcode) arguments →
      large) :
    (readWords line flags words state).FailsOnly (Excused large) := by
  unfold readWords
  split
  · exact failsOnly_refuse.mpr (Failure.excused_refused _)
  · exact failsOnly_refuse.mpr (Failure.excused_refused _)
  · next name opcode arguments =>
    have reason := overasked name opcode arguments rfl
    refine failsOnly_bind.mpr ⟨?_, ?_⟩
    · apply LineContext.failsOnly_statement
      exact fun isConstant type rest typed unwieldy =>
        reason (.constant isConstant typed unwieldy)
    · rintro ⟨statement, rest⟩ read
      refine failsOnly_bind.mpr ⟨?_, ?_⟩
      · exact (failsOnly_edit.mpr (statement.failsOnly_build _ _)).enlarge
          fun oversized => reason (.statement read oversized)
      · rintro ⟨value?, between⟩ _
        cases value? with
        | none => exact failsOnly_pure between
        | some outlet =>
            refine failsOnly_bind.mpr ⟨?_, fun _ _ => failsOnly_pure _⟩
            exact failsOnly_edit.mpr (failsOnly_nameValue line _ flags outlet between.graph)

theorem failsOnly_readLine (line : Nat) (bytes : List UInt8) (state : ImportState) :
    (readLine line bytes state).FailsOnly (Excused (Overasks line bytes state)) := by
  unfold readLine
  split
  · exact failsOnly_refuse.mpr (Failure.excused_refused _)
  · next text decoded =>
    refine failsOnly_ite.mpr ⟨fun _ => failsOnly_readWords ?_, fun _ => failsOnly_pure state⟩
    exact fun name opcode arguments words overasks =>
      ⟨text, name, opcode, arguments, decoded, words, overasks⟩

end Script

end TensorCompiler
