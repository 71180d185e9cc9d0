import TensorCompiler.Proofs.Construction.Typing
import TensorCompiler.Script.Import

namespace TensorCompiler
namespace Graph

/-!
# What the typed constructors build

A typed constructor succeeds exactly if the types of its operands suit its
operator, and it then adds the one node for it.  Whatever is made by these
constructors, alone or from a script, is therefore a valid graph.
-/

/-- An operator is applied to operands whose types suit it. -/
def Applies (g : Graph) (op : Operator) (operands : List Outlet) (outlet : Outlet) (h : Graph) :
    Prop :=
  ∃ types result, g.TypesAt operands types ∧ op.HasTypes types [result] ∧
    applyOperator op operands result g = .ok outlet h

section

variable {g h : Graph} {outlet value first second image weights bias : Outlet}

/-! ## Each constructor -/

theorem transpose_eq_ok {axes : List Nat} :
    transpose value axes g = .ok outlet h ↔ g.Applies (.transpose axes) [value] outlet h := by
  simp only [transpose, Stateful.bind_eq_ok, Edit.ask_eq_ok]
  constructor
  · rintro ⟨type, _, ⟨typed, rfl⟩, done⟩
    split at done
    · next permutes => exact ⟨_, _, .cons typed .nil, .transpose permutes, done⟩
    · exact absurd done Stateful.refuse_ne_ok
  · rintro ⟨_, _, operands, accepted, done⟩
    cases accepted with
    | transpose permutes =>
        rcases List.forall₂_cons.mp operands with ⟨typed, _⟩
        refine ⟨_, g, ⟨typed, rfl⟩, ?_⟩
        rw [if_pos permutes]
        exact done

theorem reshape_eq_ok {dims : List Nat} :
    reshape value dims g = .ok outlet h ↔ g.Applies (.reshape dims) [value] outlet h := by
  simp only [reshape, Stateful.bind_eq_ok, Edit.ask_eq_ok]
  constructor
  · rintro ⟨type, _, ⟨typed, rfl⟩, done⟩
    cases shaped : TensorType.ofDims? type.dtype dims with
    | none =>
        rw [shaped] at done
        exact absurd done Stateful.refuse_ne_ok
    | some reshaped =>
        rw [shaped] at done
        simp only [Stateful.bind_eq_ok, Stateful.lift_eq_ok] at done
        rcases done with ⟨count, _, ⟨requested, rfl⟩, elements, _, ⟨present, rfl⟩, done⟩
        split at done
        · next same =>
          subst same
          exact ⟨_, _, .cons typed .nil, .reshape shaped requested present, done⟩
        · exact absurd done Stateful.refuse_ne_ok
  · rintro ⟨_, _, operands, accepted, done⟩
    cases accepted with
    | reshape shaped requested present =>
        rcases List.forall₂_cons.mp operands with ⟨typed, _⟩
        refine ⟨_, g, ⟨typed, rfl⟩, ?_⟩
        simp only [shaped, Stateful.bind_eq_ok, Stateful.lift_eq_ok]
        refine ⟨_, g, ⟨requested, rfl⟩, _, g, ⟨present, rfl⟩, ?_⟩
        rw [if_pos rfl]
        exact done

theorem unary_eq_ok {function : UnaryFunction} :
    unary function value g = .ok outlet h ↔ g.Applies (.unary function) [value] outlet h := by
  simp only [unary, Stateful.bind_eq_ok, Edit.ask_eq_ok]
  constructor
  · rintro ⟨type, _, ⟨typed, rfl⟩, done⟩
    exact ⟨_, _, .cons typed .nil, .unary, done⟩
  · rintro ⟨_, _, operands, accepted, done⟩
    cases accepted with
    | unary =>
        rcases List.forall₂_cons.mp operands with ⟨typed, _⟩
        exact ⟨_, g, ⟨typed, rfl⟩, done⟩

theorem binary_eq_ok {function : BinaryFunction} :
    binary function first second g = .ok outlet h ↔
      g.Applies (.binary function) [first, second] outlet h := by
  simp only [binary, Stateful.bind_eq_ok, Edit.ask_eq_ok, Stateful.lift_eq_ok]
  constructor
  · rintro ⟨_, _, ⟨firstTyped, rfl⟩, _, _, ⟨secondTyped, rfl⟩, _, _, ⟨fits, rfl⟩, done⟩
    exact ⟨_, _, .cons firstTyped (.cons secondTyped .nil), .binary fits, done⟩
  · rintro ⟨_, _, operands, accepted, done⟩
    cases accepted with
    | binary fits =>
        rcases List.forall₂_cons.mp operands with ⟨firstTyped, rest⟩
        rcases List.forall₂_cons.mp rest with ⟨secondTyped, _⟩
        exact ⟨_, g, ⟨firstTyped, rfl⟩, _, g, ⟨secondTyped, rfl⟩, _, g, ⟨fits, rfl⟩, done⟩

theorem clamp_eq_ok {range : ClampRange} :
    clamp value range g = .ok outlet h ↔ g.Applies (.clamp range) [value] outlet h := by
  simp only [clamp, Stateful.bind_eq_ok, Edit.ask_eq_ok]
  constructor
  · rintro ⟨type, _, ⟨typed, rfl⟩, done⟩
    exact ⟨_, _, .cons typed .nil, .clamp, done⟩
  · rintro ⟨_, _, operands, accepted, done⟩
    cases accepted with
    | clamp =>
        rcases List.forall₂_cons.mp operands with ⟨typed, _⟩
        exact ⟨_, g, ⟨typed, rfl⟩, done⟩

theorem typeWith_eq_ok {accepts : DataType → Bool} {context : String} {type : TensorType} :
    g.typeWith value accepts context = .ok type ↔
      g.outputType value = .ok type ∧ accepts type.dtype = true := by
  simp only [typeWith, Checked.bind_eq_ok]
  constructor
  · rintro ⟨found, typed, answer⟩
    split at answer
    · next accepted =>
      rcases Checked.pure_eq_ok.mp answer with rfl
      exact ⟨typed, accepted⟩
    · exact absurd answer Checked.refuse_ne_ok
  · rintro ⟨typed, accepted⟩
    exact ⟨type, typed, by rw [if_pos accepted]; rfl⟩

theorem convolvedTypeAt_eq_ok {convolution : Convolution} {type : TensorType} :
    g.convolvedTypeAt convolution image weights bias = .ok type ↔
      ∃ imageType weightsType biasType, g.outputType image = .ok imageType ∧
        g.outputType weights = .ok weightsType ∧ g.outputType bias = .ok biasType ∧
        convolvedType convolution imageType weightsType biasType = .ok type := by
  simp only [convolvedTypeAt, Checked.bind_eq_ok]
  constructor
  · rintro ⟨imageType, imageTyped, weightsType, weightsTyped, biasType, biasTyped, fits⟩
    exact ⟨imageType, weightsType, biasType, imageTyped, weightsTyped, biasTyped, fits⟩
  · rintro ⟨imageType, weightsType, biasType, imageTyped, weightsTyped, biasTyped, fits⟩
    exact ⟨imageType, imageTyped, weightsType, weightsTyped, biasType, biasTyped, fits⟩

theorem conv2d_eq_ok {convolution : Convolution} :
    conv2d image weights bias convolution g = .ok outlet h ↔
      g.Applies (.conv2d convolution) [image, weights, bias] outlet h := by
  simp only [conv2d, Stateful.bind_eq_ok, Edit.ask_eq_ok, typeWith_eq_ok, convolvedTypeAt_eq_ok]
  constructor
  · rintro ⟨_, _, ⟨⟨imageTyped, floats⟩, rfl⟩, _, _,
      ⟨⟨imageType, weightsType, biasType, again, weightsTyped, biasTyped, fits⟩, rfl⟩, done⟩
    rcases Except.ok.inj (imageTyped.symm.trans again) with rfl
    exact ⟨_, _, .cons imageTyped (.cons weightsTyped (.cons biasTyped .nil)),
      .conv2d (of_decide_eq_true floats) fits, done⟩
  · rintro ⟨_, _, operands, accepted, done⟩
    cases accepted with
    | conv2d floats fits =>
        rcases List.forall₂_cons.mp operands with ⟨imageTyped, rest⟩
        rcases List.forall₂_cons.mp rest with ⟨weightsTyped, last⟩
        rcases List.forall₂_cons.mp last with ⟨biasTyped, _⟩
        exact ⟨_, g, ⟨⟨imageTyped, decide_eq_true floats⟩, rfl⟩, _, g,
          ⟨⟨_, _, _, imageTyped, weightsTyped, biasTyped, fits⟩, rfl⟩, done⟩

theorem matMul_eq_ok {range : ClampRange} :
    matMul first second range g = .ok outlet h ↔
      g.Applies (.matMul range) [first, second] outlet h := by
  simp only [matMul, Stateful.bind_eq_ok, Edit.ask_eq_ok, Stateful.lift_eq_ok]
  constructor
  · rintro ⟨_, _, ⟨firstTyped, rfl⟩, _, _, ⟨secondTyped, rfl⟩, _, _, ⟨fits, rfl⟩, done⟩
    exact ⟨_, _, .cons firstTyped (.cons secondTyped .nil), .matMul fits, done⟩
  · rintro ⟨_, _, operands, accepted, done⟩
    cases accepted with
    | matMul fits =>
        rcases List.forall₂_cons.mp operands with ⟨firstTyped, rest⟩
        rcases List.forall₂_cons.mp rest with ⟨secondTyped, _⟩
        exact ⟨_, g, ⟨firstTyped, rfl⟩, _, g, ⟨secondTyped, rfl⟩, _, g, ⟨fits, rfl⟩, done⟩

theorem quantize_eq_ok {quantization : Quantization} {dtype : DataType} :
    quantize value quantization dtype g = .ok outlet h ↔
      g.Applies (.quantize quantization dtype) [value] outlet h := by
  simp only [quantize, Stateful.bind_eq_ok, Edit.ask_eq_ok, typeWith_eq_ok]
  constructor
  · rintro ⟨type, _, ⟨⟨typed, floats⟩, rfl⟩, done⟩
    split at done
    · next quantized =>
      exact ⟨_, _, .cons typed .nil, .quantize (of_decide_eq_true floats) quantized, done⟩
    · exact absurd done Stateful.refuse_ne_ok
  · rintro ⟨_, _, operands, accepted, done⟩
    cases accepted with
    | quantize floats quantized =>
        rcases List.forall₂_cons.mp operands with ⟨typed, _⟩
        refine ⟨_, g, ⟨⟨typed, decide_eq_true floats⟩, rfl⟩, ?_⟩
        rw [if_pos quantized]
        exact done

theorem dequantize_eq_ok {quantization : Quantization} :
    dequantize value quantization g = .ok outlet h ↔
      g.Applies (.dequantize quantization) [value] outlet h := by
  simp only [dequantize, Stateful.bind_eq_ok, Edit.ask_eq_ok, typeWith_eq_ok]
  constructor
  · rintro ⟨type, _, ⟨⟨typed, quantized⟩, rfl⟩, done⟩
    exact ⟨_, _, .cons typed .nil, .dequantize quantized, done⟩
  · rintro ⟨_, _, operands, accepted, done⟩
    cases accepted with
    | dequantize quantized =>
        rcases List.forall₂_cons.mp operands with ⟨typed, _⟩
        exact ⟨_, g, ⟨⟨typed, quantized⟩, rfl⟩, done⟩

theorem accelUpload_eq_ok :
    accelUpload value g = .ok outlet h ↔ g.Applies .accelUpload [value] outlet h := by
  simp only [accelUpload, Stateful.bind_eq_ok, Edit.ask_eq_ok, typeWith_eq_ok]
  constructor
  · rintro ⟨type, _, ⟨⟨typed, quantized⟩, rfl⟩, done⟩
    exact ⟨_, _, .cons typed .nil, .accelUpload quantized, done⟩
  · rintro ⟨_, _, operands, accepted, done⟩
    cases accepted with
    | accelUpload quantized =>
        rcases List.forall₂_cons.mp operands with ⟨typed, _⟩
        exact ⟨_, g, ⟨⟨typed, quantized⟩, rfl⟩, done⟩

theorem accelDownload_eq_ok :
    accelDownload value g = .ok outlet h ↔ g.Applies .accelDownload [value] outlet h := by
  simp only [accelDownload, Stateful.bind_eq_ok, Edit.ask_eq_ok]
  constructor
  · rintro ⟨type, _, ⟨typed, rfl⟩, done⟩
    exact ⟨_, _, .cons typed .nil, .accelDownload, done⟩
  · rintro ⟨_, _, operands, accepted, done⟩
    cases accepted with
    | accelDownload =>
        rcases List.forall₂_cons.mp operands with ⟨typed, _⟩
        exact ⟨_, g, ⟨typed, rfl⟩, done⟩

theorem accelConv2d_eq_ok {convolution : Convolution} :
    accelConv2d image weights bias convolution g = .ok outlet h ↔
      g.Applies (.accelConv2d convolution) [image, weights, bias] outlet h := by
  simp only [accelConv2d, Stateful.bind_eq_ok, Edit.ask_eq_ok, typeWith_eq_ok]
  constructor
  · rintro ⟨_, _, ⟨⟨imageTyped, quantized⟩, rfl⟩, _, _, ⟨weightsTyped, rfl⟩, done⟩
    split at done
    · next kernel =>
      simp only [Stateful.bind_eq_ok, Edit.ask_eq_ok, convolvedTypeAt_eq_ok] at done
      rcases done with ⟨_, _, ⟨⟨_, _, _, imageAgain, weightsAgain, biasTyped, fits⟩, rfl⟩, done⟩
      rcases Except.ok.inj (imageTyped.symm.trans imageAgain) with rfl
      rcases Except.ok.inj (weightsTyped.symm.trans weightsAgain) with rfl
      exact ⟨_, _, .cons imageTyped (.cons weightsTyped (.cons biasTyped .nil)),
        .accelConv2d quantized kernel fits, done⟩
    · exact absurd done Stateful.refuse_ne_ok
  · rintro ⟨_, _, operands, accepted, done⟩
    cases accepted with
    | accelConv2d quantized kernel fits =>
        rcases List.forall₂_cons.mp operands with ⟨imageTyped, rest⟩
        rcases List.forall₂_cons.mp rest with ⟨weightsTyped, last⟩
        rcases List.forall₂_cons.mp last with ⟨biasTyped, _⟩
        refine ⟨_, g, ⟨⟨imageTyped, quantized⟩, rfl⟩, _, g, ⟨weightsTyped, rfl⟩, ?_⟩
        rw [if_pos kernel]
        simp only [Stateful.bind_eq_ok, Edit.ask_eq_ok, convolvedTypeAt_eq_ok]
        exact ⟨_, g, ⟨⟨_, _, _, imageTyped, weightsTyped, biasTyped, fits⟩, rfl⟩, done⟩

theorem constant_eq_ok {type : TensorType} {data : List UInt8} :
    constant type data g = .ok outlet h ↔ type.bytes = .ok data.length ∧
      applyOperator (.constant data) [] type g = .ok outlet h := by
  simp only [constant, Stateful.bind_eq_ok, Stateful.lift_eq_ok]
  constructor
  · rintro ⟨_, _, ⟨size, rfl⟩, done⟩
    split at done
    · next fits => exact ⟨fits ▸ size, done⟩
    · exact absurd done Stateful.refuse_ne_ok
  · rintro ⟨size, done⟩
    refine ⟨_, g, ⟨size, rfl⟩, ?_⟩
    rw [if_pos rfl]
    exact done

theorem applies_of_constant {type : TensorType} {data : List UInt8}
    (done : constant type data g = .ok outlet h) : g.Applies (.constant data) [] outlet h := by
  rcases constant_eq_ok.mp done with ⟨size, applied⟩
  exact ⟨[], type, .nil, .constant size, applied⟩

theorem constant_of_constantFloats {dims : List Nat} {values : List Binary32}
    (done : constantFloats dims values g = .ok outlet h) :
    ∃ type, constant type (values.flatMap Binary32.toBytes) g = .ok outlet h := by
  unfold constantFloats at done
  cases shaped : TensorType.ofDims? .f32 dims with
  | none =>
      rw [shaped] at done
      exact absurd done Stateful.refuse_ne_ok
  | some type =>
      rw [shaped] at done
      exact ⟨type, done⟩

/-! ## What is added -/

/-- A constructor can be applied to any operands that suit it, and it returns
the result of the new node. -/
theorem Valid.exists_applies {op : Operator} {operands : List Outlet} {types : List TensorType}
    {result : TensorType} (valid : g.Valid) (typed : g.TypesAt operands types)
    (accepted : op.HasTypes types [result]) :
    ∃ name h, g.Applies op operands ⟨g.slots.size, 0⟩ h ∧
      g.Appended (connectedNode op name operands [result]) h := by
  rcases exists_applyOperator valid.linked.faithful valid.acyclic typed accepted with
    ⟨name, h, done, appended⟩
  exact ⟨name, h, ⟨types, result, typed, accepted, done⟩, appended⟩

theorem Valid.of_applies {op : Operator} {operands : List Outlet} (valid : g.Valid)
    (applies : g.Applies op operands outlet h) : h.Valid := by
  rcases applies with ⟨types, result, typed, accepted, done⟩
  rcases exists_applyOperator valid.linked.faithful valid.acyclic typed accepted with
    ⟨name, k, again, appended⟩
  rcases EStateM.Result.ok.inj (done.symm.trans again) with ⟨_, rfl⟩
  exact valid.append appended (wellTyped_connectedNode typed accepted)

theorem Valid.of_input {name : String} {type : TensorType} (valid : g.Valid)
    (done : input name type g = .ok outlet h) : h.Valid := by
  simp only [input, Stateful.bind_eq_ok, Stateful.pure_eq_ok, addNode_eq_ok] at done
  rcases done with ⟨_, _, ⟨_, _, rfl⟩, _, rfl⟩
  have typed : g.WellTyped (connectedNode .input name [] [type]) :=
    wellTyped_connectedNode .nil .input
  exact valid.append (.push valid.linked.faithful valid.acyclic) typed

theorem Valid.of_output {name : String} {id : Nat} (valid : g.Valid)
    (done : output name value g = .ok id h) : h.Valid := by
  simp only [output, Stateful.bind_eq_ok, Stateful.pure_eq_ok, addNode_eq_ok, Edit.ask_eq_ok]
    at done
  rcases done with ⟨type, _, ⟨typed, rfl⟩, _, _, ⟨_, rfl, rfl⟩, _, _, connected, _, rfl⟩
  have operands : g.TypesAt [value] [type] := .cons typed .nil
  have count : [value].length = Operator.output.inputCount := rfl
  rcases exists_appended name [] valid.linked.faithful valid.acyclic count
    (fun _ member => operands.exists_wire member) with ⟨k, again, appended⟩
  simp only [connectFrom, Stateful.bind_eq_ok, Stateful.pure_eq_ok] at again
  rcases again with ⟨_, _, connectedAgain, _, rfl⟩
  rcases EStateM.Result.ok.inj (connected.symm.trans connectedAgain) with ⟨_, rfl⟩
  exact valid.append appended (wellTyped_connectedNode operands .output)

theorem signature_modifyNode {change : Node → Node}
    (keeps : ∀ node, (change node).signature = node.signature) (id other : Nat) :
    ((g.modifyNode id change).node? other).map Node.signature =
      (g.node? other).map Node.signature := by
  rw [node?_modifyNode]
  split
  · next isChanged =>
    rw [isChanged, Option.map_map]
    exact congrArg (fun view => (g.node? id).map view) (funext keeps)
  · rfl

theorem signature_modifyWire {change : Wire → Wire}
    (keeps : ∀ wire, (change wire).type = wire.type) (target : Outlet) (other : Nat) :
    ((g.modifyWire target change).node? other).map Node.signature =
      (g.node? other).map Node.signature := by
  apply signature_modifyNode
  intro node
  have results : (node.outputs.modify target.index change).map Wire.type =
      node.outputs.map Wire.type := by
    refine List.ext_getElem? fun index => ?_
    rw [List.getElem?_map, List.getElem?_modify, List.getElem?_map, Option.map_eq_map,
      Option.map_map]
    refine congrArg (fun view => node.outputs[index]?.map view) (funext fun wire => ?_)
    split
    · exact keeps wire
    · rfl
  simp [Node.signature, results]

/-- Names and marks do not take part in typing. -/
theorem Valid.of_updateNode {id : Nat} {change : Node → Node} (valid : g.Valid)
    (done : updateNode id change g = .ok () h)
    (signature : ∀ node, (change node).signature = node.signature)
    (outputs : ∀ node, (change node).outputs = node.outputs) : h.Valid := by
  rcases updateNode_eq_ok done with rfl
  have same := sameLinks_modifyNode g id (fun node => congrArg Signature.inputs (signature node))
    outputs
  exact valid.congr (same.keepsLinks.linked valid.linked)
    (valid.acyclic.mono fun _ _ needs => same.needs.mp needs) rfl
    (signature_modifyNode signature id)

/-- Nor do the memories of results and whether they may be reused. -/
theorem Valid.of_updateWire {target : Outlet} {change : Wire → Wire} (valid : g.Valid)
    (done : updateWire target change g = .ok () h)
    (type : ∀ wire, (change wire).type = wire.type)
    (readers : ∀ wire, (change wire).readers = wire.readers) : h.Valid := by
  rcases updateWire_eq_ok done with rfl
  have same := sameLinks_modifyWire g target readers
  exact valid.congr (same.keepsLinks.linked valid.linked)
    (valid.acyclic.mono fun _ _ needs => same.needs.mp needs) rfl
    (signature_modifyWire type target)

end

/-! ## Whole graphs -/

/-- The graphs made by the typed constructors.  Names, marks, memories and
whether a value may be reused can be set along the way. -/
inductive Made : Graph → Prop where
  | empty : Made Graph.empty
  | input {g h : Graph} {name : String} {type : TensorType} {outlet : Outlet} (earlier : Made g)
      (done : input name type g = .ok outlet h) : Made h
  | output {g h : Graph} {name : String} {value : Outlet} {id : Nat} (earlier : Made g)
      (done : output name value g = .ok id h) : Made h
  | constant {g h : Graph} {type : TensorType} {data : List UInt8} {outlet : Outlet}
      (earlier : Made g) (done : constant type data g = .ok outlet h) : Made h
  | constantFloats {g h : Graph} {dims : List Nat} {values : List Binary32} {outlet : Outlet}
      (earlier : Made g) (done : constantFloats dims values g = .ok outlet h) : Made h
  | transpose {g h : Graph} {value outlet : Outlet} {axes : List Nat} (earlier : Made g)
      (done : transpose value axes g = .ok outlet h) : Made h
  | reshape {g h : Graph} {value outlet : Outlet} {dims : List Nat} (earlier : Made g)
      (done : reshape value dims g = .ok outlet h) : Made h
  | unary {g h : Graph} {function : UnaryFunction} {value outlet : Outlet} (earlier : Made g)
      (done : unary function value g = .ok outlet h) : Made h
  | binary {g h : Graph} {function : BinaryFunction} {first second outlet : Outlet}
      (earlier : Made g) (done : binary function first second g = .ok outlet h) : Made h
  | clamp {g h : Graph} {value outlet : Outlet} {range : ClampRange} (earlier : Made g)
      (done : clamp value range g = .ok outlet h) : Made h
  | conv2d {g h : Graph} {image weights bias outlet : Outlet} {convolution : Convolution}
      (earlier : Made g) (done : conv2d image weights bias convolution g = .ok outlet h) : Made h
  | matMul {g h : Graph} {first second outlet : Outlet} {range : ClampRange} (earlier : Made g)
      (done : matMul first second range g = .ok outlet h) : Made h
  | quantize {g h : Graph} {value outlet : Outlet} {quantization : Quantization} {dtype : DataType}
      (earlier : Made g) (done : quantize value quantization dtype g = .ok outlet h) : Made h
  | dequantize {g h : Graph} {value outlet : Outlet} {quantization : Quantization}
      (earlier : Made g) (done : dequantize value quantization g = .ok outlet h) : Made h
  | accelUpload {g h : Graph} {value outlet : Outlet} (earlier : Made g)
      (done : accelUpload value g = .ok outlet h) : Made h
  | accelDownload {g h : Graph} {value outlet : Outlet} (earlier : Made g)
      (done : accelDownload value g = .ok outlet h) : Made h
  | accelConv2d {g h : Graph} {image weights bias outlet : Outlet} {convolution : Convolution}
      (earlier : Made g)
      (done : accelConv2d image weights bias convolution g = .ok outlet h) : Made h
  | setName {g h : Graph} {id : Nat} {name : String} (earlier : Made g)
      (done : setName id name g = .ok () h) : Made h
  | updateMarks {g h : Graph} {id : Nat} {change : Marks → Marks} (earlier : Made g)
      (done : updateMarks id change g = .ok () h) : Made h
  | setMemoryKind {g h : Graph} {outlet : Outlet} {kind : MemoryKind} (earlier : Made g)
      (done : setMemoryKind outlet kind g = .ok () h) : Made h
  | setNoReuse {g h : Graph} {outlet : Outlet} {noReuse : Bool} (earlier : Made g)
      (done : setNoReuse outlet noReuse g = .ok () h) : Made h

/-- The typed constructors make valid graphs only. -/
theorem Made.valid {g : Graph} (made : g.Made) : g.Valid := by
  induction made with
  | empty => exact valid_empty
  | input _ done inductionHypothesis => exact inductionHypothesis.of_input done
  | output _ done inductionHypothesis => exact inductionHypothesis.of_output done
  | constant _ done inductionHypothesis =>
      exact inductionHypothesis.of_applies (applies_of_constant done)
  | constantFloats _ done inductionHypothesis =>
      rcases constant_of_constantFloats done with ⟨_, constant⟩
      exact inductionHypothesis.of_applies (applies_of_constant constant)
  | transpose _ done inductionHypothesis =>
      exact inductionHypothesis.of_applies (transpose_eq_ok.mp done)
  | reshape _ done inductionHypothesis =>
      exact inductionHypothesis.of_applies (reshape_eq_ok.mp done)
  | unary _ done inductionHypothesis => exact inductionHypothesis.of_applies (unary_eq_ok.mp done)
  | binary _ done inductionHypothesis => exact inductionHypothesis.of_applies (binary_eq_ok.mp done)
  | clamp _ done inductionHypothesis => exact inductionHypothesis.of_applies (clamp_eq_ok.mp done)
  | conv2d _ done inductionHypothesis => exact inductionHypothesis.of_applies (conv2d_eq_ok.mp done)
  | matMul _ done inductionHypothesis => exact inductionHypothesis.of_applies (matMul_eq_ok.mp done)
  | quantize _ done inductionHypothesis =>
      exact inductionHypothesis.of_applies (quantize_eq_ok.mp done)
  | dequantize _ done inductionHypothesis =>
      exact inductionHypothesis.of_applies (dequantize_eq_ok.mp done)
  | accelUpload _ done inductionHypothesis =>
      exact inductionHypothesis.of_applies (accelUpload_eq_ok.mp done)
  | accelDownload _ done inductionHypothesis =>
      exact inductionHypothesis.of_applies (accelDownload_eq_ok.mp done)
  | accelConv2d _ done inductionHypothesis =>
      exact inductionHypothesis.of_applies (accelConv2d_eq_ok.mp done)
  | setName _ done inductionHypothesis =>
      exact inductionHypothesis.of_updateNode done (fun _ => rfl) fun _ => rfl
  | updateMarks _ done inductionHypothesis =>
      exact inductionHypothesis.of_updateNode done (fun _ => rfl) fun _ => rfl
  | setMemoryKind _ done inductionHypothesis =>
      exact inductionHypothesis.of_updateWire done (fun _ => rfl) fun _ => rfl
  | setNoReuse _ done inductionHypothesis =>
      exact inductionHypothesis.of_updateWire done (fun _ => rfl) fun _ => rfl

/-! ## A small graph -/

/-- An image is transposed there and back and then rectified. -/
def rectifyTurned : Edit Nat := do
  let image ← input "image" ⟨.f32, [2, 3]⟩
  let turned ← transpose image [1, 0]
  let back ← transpose turned [1, 0]
  let rectified ← unary .relu back
  output "result" rectified

/-- The graph that this makes of the empty one. -/
def rectified : Graph :=
  match rectifyTurned .empty with
  | .ok _ made => made
  | .error _ left => left

theorem made_rectified : rectified.Made := by
  have done : rectifyTurned .empty = .ok 4 rectified := rfl
  simp only [rectifyTurned, Stateful.bind_eq_ok] at done
  rcases done with ⟨_, _, image, _, _, turned, _, _, back, _, _, rectifying, result⟩
  exact .output (.unary (.transpose (.transpose (.input .empty image) turned) back) rectifying)
    result

end Graph

/-! ## Scripts -/

namespace Script

open TensorCompiler.Graph (Made)

variable {g h : Graph}

theorem made_of_build {name : String} {statement : Statement} {value? : Option Outlet}
    (made : g.Made) (done : statement.build name g = .ok value? h) : h.Made := by
  cases statement <;>
    simp only [Statement.build, Stateful.map_eq_ok, Stateful.bind_eq_ok, Stateful.pure_eq_ok]
      at done
  case input => exact made.input done.choose_spec.1
  case output =>
      rcases done with ⟨_, _, declared, _, rfl⟩
      exact made.output declared
  case constant => exact made.constant done.choose_spec.1
  case transpose => exact made.transpose done.choose_spec.1
  case reshape => exact made.reshape done.choose_spec.1
  case clamp => exact made.clamp done.choose_spec.1
  case conv2d => exact made.conv2d done.choose_spec.1
  case matMul => exact made.matMul done.choose_spec.1
  case quantize => exact made.quantize done.choose_spec.1
  case dequantize => exact made.dequantize done.choose_spec.1
  case unary => exact made.unary done.choose_spec.1
  case binary => exact made.binary done.choose_spec.1

/-- A statement is what the arguments of some line say. -/
def IsRead (statement : Statement) : Prop :=
  ∃ context opcode arguments rest,
    LineContext.statement context opcode arguments = .ok (statement, rest)

/-- A property that reading a script keeps: carrying out a statement keeps it, and so do
the names and marks that a line gives to its node. -/
structure Kept (holds : Graph → Prop) : Prop where
  build : ∀ {g h : Graph} {name : String} {statement : Statement} {value? : Option Outlet},
    holds g → IsRead statement → statement.build name g = .ok value? h → holds h
  setName : ∀ {g h : Graph} {id : Nat} {name : String},
    holds g → Graph.setName id name g = .ok () h → holds h
  updateMarks : ∀ {g h : Graph} {id : Nat} {change : Marks → Marks},
    holds g → Graph.updateMarks id change g = .ok () h → holds h

variable {holds : Graph → Prop}

theorem Kept.setFlags {line id : Nat} {flags : List (List Char)} (kept : Kept holds)
    (start : holds g) (done : setFlags line id flags g = .ok () h) : holds h := by
  induction flags generalizing g with
  | nil =>
      rcases Stateful.pure_eq_ok.mp done with ⟨_, rfl⟩
      exact start
  | cons flag rest inductionHypothesis =>
      simp only [Script.setFlags, Stateful.bind_eq_ok, Stateful.lift_eq_ok] at done
      rcases done with ⟨_, _, ⟨_, rfl⟩, _, _, marked, done⟩
      exact inductionHypothesis (kept.updateMarks start marked) done

theorem Kept.nameValue {line : Nat} {name : String} {flags : List (List Char)}
    {outlet : Outlet} (kept : Kept holds) (start : holds g)
    (done : nameValue line name flags outlet g = .ok () h) : holds h := by
  simp only [Script.nameValue, Stateful.bind_eq_ok] at done
  rcases done with ⟨_, _, named, done⟩
  exact kept.setFlags (kept.setName start named) done

theorem edit_eq_ok {α : Type} {state after : ImportState} {change : Edit α} {value : α}
    (done : state.edit change = .ok (value, after)) :
    change state.graph = .ok value after.graph := by
  unfold ImportState.edit at done
  split at done
  · next found =>
    rcases Prod.mk.inj (Except.ok.inj done) with ⟨rfl, rfl⟩
    exact found
  · cases done

theorem Kept.readWords {line : Nat} {flags words : List (List Char)} {state after : ImportState}
    (kept : Kept holds) (start : holds state.graph)
    (done : readWords line flags words state = .ok after) : holds after.graph := by
  unfold Script.readWords at done
  split at done
  · exact absurd done Checked.refuse_ne_ok
  · exact absurd done Checked.refuse_ne_ok
  · simp only [Checked.bind_eq_ok, Prod.exists] at done
    rcases done with ⟨statement, _, read, value?, between, built, done⟩
    have next := kept.build start ⟨_, _, _, _, read⟩ (edit_eq_ok built)
    cases value? with
    | none =>
        rcases Checked.pure_eq_ok.mp done with rfl
        exact next
    | some outlet =>
        simp only [Checked.bind_eq_ok, Prod.exists] at done
        rcases done with ⟨_, last, named, done⟩
        rcases Checked.pure_eq_ok.mp done with rfl
        have nameSet := edit_eq_ok named
        exact kept.nameValue next nameSet

theorem Kept.readLine {line : Nat} {bytes : List UInt8} {state after : ImportState}
    (kept : Kept holds) (start : holds state.graph)
    (done : readLine line bytes state = .ok after) : holds after.graph := by
  unfold Script.readLine at done
  split at done
  · exact absurd done Checked.refuse_ne_ok
  · simp only at done
    split at done
    · exact kept.readWords start done
    · rcases Checked.pure_eq_ok.mp done with rfl
      exact start

theorem Kept.readLines {line : Nat} {lines : List (List UInt8)} {state after : ImportState}
    (kept : Kept holds) (start : holds state.graph)
    (done : readLines line lines state = .ok after) : holds after.graph := by
  induction lines generalizing line state with
  | nil =>
      rcases Checked.pure_eq_ok.mp done with rfl
      exact start
  | cons bytes rest inductionHypothesis =>
      simp only [Script.readLines, Checked.bind_eq_ok] at done
      rcases done with ⟨between, first, done⟩
      exact inductionHypothesis (kept.readLine start first) done

/-- What reading keeps is true of the graph of a script, which has a declared output. -/
theorem Kept.ofScript {bytes : List UInt8} (kept : Kept holds) (start : holds Graph.empty)
    (done : Graph.ofScript bytes = .ok g) : holds g ∧ g.outputs ≠ [] := by
  simp only [Graph.ofScript, Checked.bind_eq_ok] at done
  rcases done with ⟨state, read, done⟩
  split at done
  · exact absurd done Checked.refuse_ne_ok
  · split at done
    · exact absurd done Checked.refuse_ne_ok
    · next declared =>
      rcases Checked.pure_eq_ok.mp done with rfl
      exact ⟨kept.readLines start read, fun none => declared (by rw [none]; rfl)⟩

theorem kept_made : Kept Made where
  build := fun made _ done => made_of_build made done
  setName := Made.setName
  updateMarks := Made.updateMarks

end Script

/-- A script makes its graph with the typed constructors. -/
theorem Graph.made_of_ofScript {bytes : List UInt8} {g : Graph}
    (done : Graph.ofScript bytes = .ok g) : g.Made :=
  (Script.kept_made.ofScript .empty done).1

end TensorCompiler
