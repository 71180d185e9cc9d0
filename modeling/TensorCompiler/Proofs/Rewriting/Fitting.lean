import TensorCompiler.Proofs.Rewriting.Rules

namespace TensorCompiler

/-!
# Rules that fit

On a valid graph a rule does not fail.  Whatever it recognizes, its constructors
accept what they are given, and the result has the type of the one that it replaces.

For the rules that keep values this is a part of their soundness.  The rule that moves
a convolution to the accelerator does not keep values, so it is followed here through
its six constructors.
-/

/-! ## Quantized weights -/

theorem Quantization.length_quantizeBytes (quantization : Quantization) (data : List UInt8) :
    (quantization.quantizeBytes data).length = data.length / 4 := by
  fun_induction quantizeBytes quantization data with
  | case1 b0 b1 b2 b3 rest inductionHypothesis =>
      simp only [List.length_cons, inductionHypothesis]
      omega
  | case2 data short =>
      match data, short with
      | [], _ | [_], _ | [_, _], _ | [_, _, _], _ => simp
      | b0 :: b1 :: b2 :: b3 :: rest, short => exact absurd rfl (short b0 b1 b2 b3 rest)

/-- The elements of a block of floats fit into a quarter of its bytes. -/
theorem TensorType.bytes_quantized {type : TensorType} {size : Nat} (floats : type.dtype = .f32)
    (sized : type.bytes = .ok size) : (⟨.u8, type.shape⟩ : TensorType).bytes = .ok (size / 4) := by
  simp only [bytes, Checked.bind_eq_ok, Word.mul_eq_ok, floats] at sized ⊢
  rcases sized with ⟨count, counted, rfl, fits⟩
  simp only [DataType.size] at fits ⊢
  exact ⟨count, counted, by omega, by omega⟩

/-! ## Convolutions -/

/-- The shapes that a convolution takes and the one it returns. -/
inductive Convolution.HasShapes (convolution : Convolution) :
    List Nat → List Nat → List Nat → List Nat → Prop
  | intro {batch channels height width features kernelHeight kernelWidth paddedHeight paddedWidth
      rows columns : Nat}
      (vertical : convolution.strideHeight ≠ 0) (horizontal : convolution.strideWidth ≠ 0)
      (high : Graph.paddedExtent height convolution.paddingHeight = .ok paddedHeight)
      (kernelHigh : kernelHeight ≤ paddedHeight)
      (wide : Graph.paddedExtent width convolution.paddingWidth = .ok paddedWidth)
      (kernelWide : kernelWidth ≤ paddedWidth)
      (hasRows : Word.add ((paddedHeight - kernelHeight) / convolution.strideHeight) 1 = .ok rows)
      (hasColumns :
        Word.add ((paddedWidth - kernelWidth) / convolution.strideWidth) 1 = .ok columns) :
      HasShapes convolution [batch, channels, height, width]
        [features, channels, kernelHeight, kernelWidth] [features] [batch, features, rows, columns]

/-- Whether there is a convolution depends on the shapes alone, and the result has
elements like the image. -/
theorem Graph.convolvedType_eq_ok {convolution : Convolution}
    {image weights bias type : TensorType} :
    convolvedType convolution image weights bias = .ok type ↔
      type.dtype = image.dtype ∧
        convolution.HasShapes image.shape weights.shape bias.shape type.shape := by
  constructor
  · intro fits
    unfold convolvedType at fits
    split at fits
    · next imageShape weightsShape =>
      simp only [Checked.guard_eq_ok, Checked.bind_eq_ok, Checked.pure_eq_ok, not_or, ne_eq,
        not_not, not_lt] at fits
      rcases fits with
        ⟨⟨rfl, biasShape⟩, ⟨vertical, horizontal⟩, paddedHeight, high, kernelHigh, paddedWidth,
          wide, kernelWide, rows, hasRows, columns, hasColumns, rfl⟩
      rw [imageShape, weightsShape, biasShape]
      exact ⟨rfl, .intro vertical horizontal high kernelHigh wide kernelWide hasRows hasColumns⟩
    · cases fits
    · cases fits
  · rcases image with ⟨imageType, imageShape⟩
    rcases weights with ⟨weightsType, weightsShape⟩
    rcases bias with ⟨biasType, biasShape⟩
    rcases type with ⟨resultType, resultShape⟩
    rintro ⟨sameType, shapes⟩
    cases shapes with
    | intro vertical horizontal high kernelHigh wide kernelWide hasRows hasColumns =>
        simp only [convolvedType, Checked.guard_eq_ok, Checked.bind_eq_ok, Checked.pure_eq_ok,
          not_or, ne_eq, not_not, not_lt, and_self, true_and]
        exact ⟨⟨vertical, horizontal⟩, _, high, kernelHigh, _, wide, kernelWide, _,
          hasRows, _, hasColumns, congrArg (TensorType.mk · _) sameType.symm⟩

/-- What the operators with an opcode look like. -/
def Opcode.Describes (op : Operator) : Opcode → Prop
  | .input => op = .input
  | .output => op = .output
  | .constant => ∃ data, op = .constant data
  | .transpose => ∃ axes, op = .transpose axes
  | .reshape => ∃ shape, op = .reshape shape
  | .unary => ∃ function, op = .unary function
  | .binary => ∃ function, op = .binary function
  | .clamp => ∃ range, op = .clamp range
  | .conv2d => ∃ convolution, op = .conv2d convolution
  | .matMul => ∃ range, op = .matMul range
  | .quantize => ∃ quantization type, op = .quantize quantization type
  | .dequantize => ∃ quantization, op = .dequantize quantization
  | .accelUpload => op = .accelUpload
  | .accelDownload => op = .accelDownload
  | .accelConv2d => ∃ convolution, op = .accelConv2d convolution

theorem Operator.describes_of_opcode {op : Operator} {opcode : Opcode} (same : op.opcode = opcode) :
    opcode.Describes op := by
  subst same
  cases op <;> simp [Operator.opcode, Opcode.Describes]

/-! ## What a rule finds and builds -/

namespace Graph

variable {g : Graph}

/-- On operands that suit an operator a node can be added, and everything keeps its
type. -/
theorem Valid.exists_applyOperator {op : Operator} {operands : List Outlet}
    {types : List TensorType} {result : TensorType} (valid : g.Valid)
    (typed : g.TypesAt operands types) (accepted : op.HasTypes types [result]) :
    ∃ outlet h, applyOperator op operands result g = .ok outlet h ∧ h.Valid ∧
      h.outputType outlet = .ok result ∧
      ∀ other type, g.outputType other = .ok type → h.outputType other = .ok type := by
  rcases Graph.exists_applyOperator valid.linked.faithful valid.acyclic typed accepted with
    ⟨name, h, done, appended⟩
  rcases appended.exists_new_signature with ⟨added, found, signature⟩
  refine ⟨_, h, done, valid.append appended (wellTyped_connectedNode typed accepted), ?_,
    fun _ _ => appended.outputType⟩
  refine outputType_iff.mpr ⟨added, found, ?_⟩
  rw [signature]
  rfl

/-- The data of a constant make up its type. -/
theorem Valid.bytes_of_constant {outlet : Outlet} {data : List UInt8} {type : TensorType}
    (valid : g.Valid) (operator : g.op? outlet.node = some (.constant data))
    (typed : g.outputType outlet = .ok type) : type.bytes = .ok data.length := by
  rcases Option.map_eq_some_iff.mp operator with ⟨node, found, op⟩
  rcases outputType_iff.mp typed with ⟨again, foundAgain, entry⟩
  rcases Option.some.inj (found.symm.trans foundAgain) with rfl
  rcases valid.typed outlet.node node found with ⟨_, _, _, _, accepted⟩
  rw [op] at accepted
  change (node.outputs.map Wire.type)[outlet.index]? = some type at entry
  generalize node.outputs.map Wire.type = results at accepted entry
  cases accepted with
  | constant fits =>
      rcases List.mem_singleton.mp (List.mem_of_getElem? entry) with rfl
      exact fits

end Graph

namespace Rule

variable {rule : Rule}

/-- Whatever region of a valid graph a rule recognizes, the rule succeeds, and its
result has the type of the one result of the region. -/
def Fitting (rule : Rule) : Prop :=
  ∀ {g : Graph} {id : Nat} {op : Operator} {region : Region} {sources : List Outlet},
    g.Valid → g.op? id = some op → op.opcode ∈ rule.anchors →
    rule.recognize g id = some region → region.Replaceable g →
    region.inputs.mapM g.connectedProducer = .ok sources →
    ∃ old new built type, region.outputs = [old] ∧
      rule.build ⟨region, sources⟩ g = .ok [new] built ∧
      g.outputType old = .ok type ∧ built.outputType new = .ok type

theorem Sound.fitting {α : DataType → Type} {I : Interpretation α} (sound : rule.Sound I) :
    rule.Fitting := by
  intro g id op region sources valid operator anchored recognized replaceable captured
  rcases sound valid operator anchored recognized replaceable captured with
    ⟨old, new, built, boundary, done, substitutes⟩
  rcases substitutes.typed with ⟨type, oldTyped, newTyped⟩
  exact ⟨old, new, built, type, boundary, done, oldTyped, newTyped⟩

theorem hasAcceleratedWeights_iff {g : Graph} {weights : Outlet} :
    hasAcceleratedWeights g weights = true ↔ ∃ type, g.outputType weights = .ok type ∧
      type.dtype = .f32 ∧ Graph.isAcceleratedKernel type = true := by
  unfold hasAcceleratedWeights
  cases g.outputType weights with
  | error failure => simp
  | ok type => simp

/-- What the rule for the accelerator recognizes: a convolution whose weights are a
constant that suits the accelerator. -/
theorem recognize_lowerConv2dToAccel {quantization : Quantization} {g : Graph} {id : Nat}
    {region : Region}
    (recognized : (lowerConv2dToAccel quantization).recognize g id = some region) :
    Region.single g id = some region ∧ ∃ weights data, g.Reads ⟨id, 1⟩ weights ∧
      g.op? weights.node = some (.constant data) ∧ hasAcceleratedWeights g weights = true := by
  simp only [lowerConv2dToAccel] at recognized
  split at recognized
  · split at recognized
    · next weights data produced =>
      split at recognized
      · next suits =>
        rcases Graph.producerOf_eq_some.mp produced with ⟨reads, constant⟩
        exact ⟨recognized, weights, data, reads, constant, suits⟩
      · cases recognized
    · cases recognized
  · cases recognized

/-- The six constructors succeed on a convolution of floats with weights that suit the
accelerator. -/
theorem exists_build_lowerConv2dToAccel {quantization : Quantization} {g : Graph} {id : Nat}
    {region : Region} {convolution : Convolution} {image weights bias : Outlet}
    {imageType weightsType biasType result : TensorType} {data : List UInt8} (valid : g.Valid)
    (nodes : region.nodes = [id]) (operator : g.op? id = some (.conv2d convolution))
    (constant : g.op? weights.node = some (.constant data))
    (imageTyped : g.outputType image = .ok imageType)
    (weightsTyped : g.outputType weights = .ok weightsType)
    (biasTyped : g.outputType bias = .ok biasType) (imageFloats : imageType.dtype = .f32)
    (weightsFloats : weightsType.dtype = .f32)
    (kernel : Graph.isAcceleratedKernel weightsType = true)
    (fits : Graph.convolvedType convolution imageType weightsType biasType = .ok result) :
    ∃ new built, (lowerConv2dToAccel quantization).build ⟨region, [image, weights, bias]⟩ g =
      .ok [new] built ∧ built.outputType new = .ok result := by
  rcases Option.map_eq_some_iff.mp operator with ⟨node, found, op⟩
  rcases Graph.convolvedType_eq_ok.mp fits with ⟨sameType, shapes⟩
  have bytes : (⟨.u8, weightsType.shape⟩ : TensorType).bytes =
      .ok (quantization.quantizeBytes data).length := by
    rw [Quantization.length_quantizeBytes]
    exact TensorType.bytes_quantized weightsFloats (valid.bytes_of_constant constant weightsTyped)
  have quantizes : (Operator.quantize quantization .u8).HasTypes [imageType]
      [⟨.u8, imageType.shape⟩] := .quantize imageFloats rfl
  have convolves : (Operator.accelConv2d convolution).HasTypes
      [⟨.u8, imageType.shape⟩, ⟨.u8, weightsType.shape⟩, biasType] [⟨.u8, result.shape⟩] :=
    .accelConv2d rfl kernel (Graph.convolvedType_eq_ok.mpr ⟨rfl, shapes⟩)
  have dequantizes : (Operator.dequantize quantization).HasTypes [⟨.u8, result.shape⟩]
      [⟨.f32, result.shape⟩] := .dequantize rfl
  rcases valid.exists_applyOperator .nil (.constant bytes) with
    ⟨stored, first, madeStored, firstValid, storedTyped, keptFirst⟩
  have imageFirst : first.TypesAt [image] [imageType] := .cons (keptFirst _ _ imageTyped) .nil
  rcases firstValid.exists_applyOperator imageFirst quantizes with
    ⟨quantized, second, madeQuantized, secondValid, quantizedTyped, keptSecond⟩
  have quantizedSecond : second.TypesAt [quantized] [⟨.u8, imageType.shape⟩] :=
    .cons quantizedTyped .nil
  rcases secondValid.exists_applyOperator quantizedSecond (.accelUpload rfl) with
    ⟨uploaded, third, madeUploaded, thirdValid, uploadedTyped, keptThird⟩
  have operandsThird : third.TypesAt [uploaded, stored, bias]
      [⟨.u8, imageType.shape⟩, ⟨.u8, weightsType.shape⟩, biasType] :=
    .cons uploadedTyped (.cons (keptThird _ _ (keptSecond _ _ storedTyped))
      (.cons (keptThird _ _ (keptSecond _ _ (keptFirst _ _ biasTyped))) .nil))
  rcases thirdValid.exists_applyOperator operandsThird convolves with
    ⟨convolved, fourth, madeConvolved, fourthValid, convolvedTyped, _⟩
  have convolvedFourth : fourth.TypesAt [convolved] [⟨.u8, result.shape⟩] :=
    .cons convolvedTyped .nil
  rcases fourthValid.exists_applyOperator convolvedFourth .accelDownload with
    ⟨downloaded, fifth, madeDownloaded, fifthValid, downloadedTyped, _⟩
  have downloadedFifth : fifth.TypesAt [downloaded] [⟨.u8, result.shape⟩] :=
    .cons downloadedTyped .nil
  rcases fifthValid.exists_applyOperator downloadedFifth dequantizes with
    ⟨new, built, made, _, newTyped, _⟩
  refine ⟨new, built, ?_, ?_⟩
  · simp only [lowerConv2dToAccel, Stateful.bind_eq_ok, Stateful.get_eq_ok, Stateful.lift_eq_ok,
      Match.node, Match.source, nodes]
    refine ⟨g, g, ⟨rfl, rfl⟩, id, g, ⟨rfl, rfl⟩, node, g, ⟨Graph.node_eq_ok.mpr found, rfl⟩, image,
      g, ⟨rfl, rfl⟩, weights, g, ⟨rfl, rfl⟩, bias, g, ⟨rfl, rfl⟩, ?_⟩
    simp only [op, constant, Stateful.bind_eq_ok, Stateful.lift_eq_ok, Stateful.pure_eq_ok]
    exact ⟨weightsType, g, ⟨weightsTyped, rfl⟩,
      stored, first, Graph.constant_eq_ok.mpr ⟨bytes, madeStored⟩,
      quantized, second, Graph.quantize_eq_ok.mpr ⟨_, _, imageFirst, quantizes, madeQuantized⟩,
      uploaded, third,
      Graph.accelUpload_eq_ok.mpr ⟨_, _, quantizedSecond, .accelUpload rfl, madeUploaded⟩,
      convolved, fourth,
      Graph.accelConv2d_eq_ok.mpr ⟨_, _, operandsThird, convolves, madeConvolved⟩,
      downloaded, fifth,
      Graph.accelDownload_eq_ok.mpr ⟨_, _, convolvedFourth, .accelDownload, madeDownloaded⟩,
      new, built, Graph.dequantize_eq_ok.mpr ⟨_, _, downloadedFifth, dequantizes, made⟩, rfl, rfl⟩
  · rw [newTyped, ← imageFloats, ← sameType]

theorem fitting_lowerConv2dToAccel (quantization : Quantization) :
    (lowerConv2dToAccel quantization).Fitting := by
  intro g id op region sources valid operator anchored recognized replaceable captured
  rcases recognize_lowerConv2dToAccel recognized with
    ⟨single, weights, data, reads, constant, suits⟩
  rcases Region.exists_oneNode valid replaceable operator single captured with
    ⟨types, result, shape⟩
  rcases hasAcceleratedWeights_iff.mp suits with ⟨weightsType, weightsTyped, weightsFloats, kernel⟩
  rcases Operator.describes_of_opcode (List.mem_singleton.mp anchored) with ⟨convolution, rfl⟩
  cases shape.accepted with
  | conv2d floats fits =>
      rcases List.length_eq_three.mp shape.typed.length_eq with ⟨image, second, bias, rfl⟩
      obtain rfl : second = weights := Option.some.inj (shape.reads 1 weights reads)
      rcases List.forall₂_cons.mp shape.typed with ⟨imageTyped, rest⟩
      rcases List.forall₂_cons.mp rest with ⟨secondTyped, last⟩
      rcases List.forall₂_cons.mp last with ⟨biasTyped, _⟩
      rcases Except.ok.inj (weightsTyped.symm.trans secondTyped) with rfl
      rcases exists_build_lowerConv2dToAccel valid shape.nodes
        operator constant imageTyped weightsTyped biasTyped floats weightsFloats kernel fits with
        ⟨new, built, done, newTyped⟩
      exact ⟨_, new, built, result, shape.outputs, done, shape.oldTyped, newTyped⟩

end Rule
end TensorCompiler
