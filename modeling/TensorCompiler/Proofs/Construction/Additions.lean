import TensorCompiler.Proofs.Construction.Builders
import TensorCompiler.Proofs.Graph.Integrity

namespace TensorCompiler
namespace Graph

/-!
# What a typed constructor leaves behind

A typed constructor either adds one well-typed node or leaves the graph as it was:
every check comes before the node is added, and once the operands are known to
exist, connecting them cannot fail.  Nothing is assumed about the types in the rest
of the graph, so this holds of every graph whose links can be relied on.
-/

section

variable {g h : Graph} {node : Node}

/-! ## One more node -/

theorem Appended.op?_old (appended : g.Appended node h) {id : Nat} (inside : id < g.slots.size) :
    h.op? id = g.op? id :=
  map_view_mono (appended.signature_old inside) fun first second same => by
    have operators : first.signature.op = second.signature.op := congrArg Signature.op same
    exact operators

theorem Appended.op?_new (appended : g.Appended node h) : h.op? g.slots.size = some node.op := by
  rcases appended.exists_new_signature with ⟨added, found, same⟩
  rw [op?, found, Option.map_some]
  exact congrArg (fun signature => some signature.op) same

theorem results_connectedNode (op : Operator) (name : String) (operands : List Outlet)
    (types : List TensorType) :
    (connectedNode op name operands types).signature.results = types := by
  simp [connectedNode, freshNode, Node.signature, Function.comp_def]

/-- What has been added to a graph is known from the result, but for its readers. -/
theorem Appended.unread_eq {other : Node} (appended : g.Appended node h)
    (again : g.Appended other h) : node.unread = other.unread :=
  Option.some.inj (appended.new.symm.trans again.new)

theorem Appended.nodeIds (appended : g.Appended node h) :
    h.nodeIds = g.nodeIds ++ [g.slots.size] := by
  have before : (List.range g.slots.size).filter h.contains = g.nodeIds := by
    apply List.filter_congr
    intro id inside
    rw [contains_eq, contains_eq, appended.op?_old (List.mem_range.mp inside)]
  have last : h.contains g.slots.size = true := by
    rw [contains_eq, appended.op?_new]
    rfl
  rw [Graph.nodeIds, appended.size, List.range_succ, List.filter_append, before]
  simp [last]

theorem Appended.intact (appended : g.Appended node h) (intact : g.Intact) : h.Intact where
  toFaithful := appended.links.faithful intact.toFaithful
  acyclic := appended.acyclic
  counted := by
    have counted : g.live = g.nodeIds.length := intact.counted
    rw [appended.nodeIds, List.length_append, ← counted]
    exact appended.live
  declared := by
    have before : (g.nodeIds.filter fun id => h.op? id == some .output) = g.outputs := by
      rw [intact.declared]
      apply List.filter_congr
      intro id member
      rw [appended.op?_old (lt_size_of_mem_nodeIds member)]
    rw [appended.outputs, appended.nodeIds, List.filter_append, before, Graph.push]
    by_cases isOutput : node.op = .output
    · simp [appended.op?_new, isOutput]
    · simp [appended.op?_new, isOutput]

theorem Appended.evolvesLinked (appended : g.Appended node h) (intact : g.Intact) :
    g.EvolvesLinked h where
  intact := appended.intact intact
  size := by
    rw [appended.size]
    exact Nat.le_succ _
  gone := by
    intro id inside gone
    have operator := appended.op?_old inside
    rw [op?, op?, gone, Option.map_none] at operator
    exact Option.map_eq_none_iff.mp operator
  toKeepsLinks := appended.links

theorem linksKept_addNode (intact : g.Intact) (op : Operator) (name : String)
    (types : List TensorType) : g.LinksKept (addNode op name types) := by
  refine Edit.ends_step ?_ (.refl intact)
  intro id h done
  rcases addNode_eq_ok.mp (Edit.step_eq_ok.mpr done) with ⟨_, _, rfl⟩
  exact (Appended.push intact.toFaithful intact.acyclic).evolvesLinked intact

/-! ## Other attributes -/

/-- Two graphs differ at most in attributes that neither links nor types depend on. -/
structure Relabelled (g h : Graph) : Prop extends SameInventory g h, SameLinks g h where
  signatures : ∀ id, (h.node? id).map Node.signature = (g.node? id).map Node.signature

theorem relabelled_modifyNode {change : Node → Node} (g : Graph) (id : Nat)
    (signature : ∀ node, (change node).signature = node.signature)
    (outputs : ∀ node, (change node).outputs = node.outputs) :
    g.Relabelled (g.modifyNode id change) where
  toSameInventory :=
    sameInventory_modifyNode g id fun node => congrArg Signature.op (signature node)
  toSameLinks :=
    sameLinks_modifyNode g id (fun node => congrArg Signature.inputs (signature node)) outputs
  signatures := signature_modifyNode signature id

theorem relabelled_modifyWire {change : Wire → Wire} (g : Graph) (outlet : Outlet)
    (type : ∀ wire, (change wire).type = wire.type)
    (readers : ∀ wire, (change wire).readers = wire.readers) :
    g.Relabelled (g.modifyWire outlet change) where
  toSameInventory := sameInventory_modifyNode g outlet.node fun _ => rfl
  toSameLinks := sameLinks_modifyWire g outlet readers
  signatures := signature_modifyWire type outlet

/-! ## Each constructor -/

/-- The links of a graph can be relied on: those that are stored at the outlet's end are
there, and no node needs itself. -/
structure Reliable (g : Graph) : Prop extends Faithful g where
  acyclic : g.Acyclic

theorem Intact.reliable (intact : g.Intact) : g.Reliable :=
  ⟨intact.toFaithful, intact.acyclic⟩

/-- A graph has one node more, an operator on operands that suit it. -/
def Adds (g : Graph) (op : Operator) (operands : List Outlet) (h : Graph) : Prop :=
  ∃ name types results, g.TypesAt operands types ∧ op.HasTypes types results ∧
    g.Appended (connectedNode op name operands results) h

/-- A constructor adds one node with an operator on some operands and returns its
result, or it leaves the graph alone. -/
def Constructs (g : Graph) (op : Operator) (operands : List Outlet) (edit : Edit Outlet) : Prop :=
  Stateful.Ends edit g (fun outlet h => outlet = ⟨g.slots.size, 0⟩ ∧ g.Adds op operands h) (· = g)

variable {value first second image weights bias : Outlet}

theorem constructs_applyOperator {op : Operator} {operands : List Outlet} {types : List TensorType}
    {result : TensorType} (reliable : g.Reliable) (typed : g.TypesAt operands types)
    (accepted : op.HasTypes types [result]) :
    g.Constructs op operands (applyOperator op operands result) := by
  rcases exists_applyOperator reliable.toFaithful reliable.acyclic typed accepted with
    ⟨name, h, done, appended⟩
  exact (Stateful.ends_of_ok done).mpr ⟨rfl, name, types, [result], typed, accepted, appended⟩

theorem constructs_input (reliable : g.Reliable) (name : String) (type : TensorType) :
    g.Constructs .input [] (input name type) := by
  simp only [Constructs, input, Stateful.ends_bind, Stateful.ends_pure]
  refine Edit.ends_step ?_ rfl
  intro id h done
  rcases addNode_eq_ok.mp (Edit.step_eq_ok.mpr done) with ⟨_, rfl, rfl⟩
  exact ⟨rfl, name, [], [type], .nil, .input, .push reliable.toFaithful reliable.acyclic⟩

/-- An output can be declared of any value that is there.  Its node bears the given
name. -/
theorem exists_output {type : TensorType} (reliable : g.Reliable) (name : String)
    (typed : g.outputType value = .ok type) :
    ∃ h, output name value g = .ok g.slots.size h ∧
      g.Appended (connectedNode .output name [value] []) h := by
  have operands : g.TypesAt [value] [type] := .cons typed .nil
  have count : [value].length = Operator.output.inputCount := rfl
  rcases exists_appended name [] reliable.toFaithful reliable.acyclic count
    fun _ member => operands.exists_wire member with
    ⟨h, connected, appended⟩
  refine ⟨h, ?_, appended⟩
  simp only [connectFrom, Stateful.bind_eq_ok, Stateful.pure_eq_ok] at connected
  rcases connected with ⟨_, _, done, _, rfl⟩
  simp only [output, Stateful.bind_eq_ok, Edit.ask_eq_ok, Stateful.pure_eq_ok]
  exact ⟨type, g, ⟨typed, rfl⟩, g.slots.size, _, addNode_eq_ok.mpr ⟨rfl, rfl, rfl⟩, (), _, done,
    rfl, rfl⟩

/-- A declared output has no result of its own. -/
theorem ends_output (reliable : g.Reliable) (name : String) (value : Outlet) :
    Stateful.Ends (output name value) g (fun _ h => g.Adds .output [value] h) (· = g) := by
  cases typed : g.outputType value with
  | error failure =>
      simp only [output, Stateful.ends_bind]
      refine Edit.ends_ask ?_ rfl
      intro type found
      rw [typed] at found
      cases found
  | ok type =>
      rcases exists_output reliable name typed with ⟨h, done, appended⟩
      exact (Stateful.ends_of_ok done).mpr
        ⟨name, [type], [], .cons typed .nil, .output, appended⟩

theorem constructs_constant (reliable : g.Reliable) (type : TensorType) (data : List UInt8) :
    g.Constructs (.constant data) [] (constant type data) := by
  simp only [Constructs, constant, Stateful.ends_bind]
  refine Stateful.ends_lift ?_ rfl
  intro bytes size
  split
  · next fits =>
    exact constructs_applyOperator reliable .nil (.constant (size.trans (congrArg _ fits.symm)))
  · rfl

theorem constructs_constantFloats (reliable : g.Reliable) (dims : List Nat)
    (values : List Binary32) :
    g.Constructs (.constant (values.flatMap Binary32.toBytes)) [] (constantFloats dims values) := by
  unfold Constructs constantFloats
  split
  · exact constructs_constant reliable _ _
  · rfl

theorem constructs_transpose (reliable : g.Reliable) (value : Outlet) (axes : List Nat) :
    g.Constructs (.transpose axes) [value] (transpose value axes) := by
  simp only [Constructs, transpose, Stateful.ends_bind]
  refine Edit.ends_ask ?_ rfl
  intro type typed
  split
  · next permutes =>
    exact constructs_applyOperator reliable (.cons typed .nil) (.transpose permutes)
  · rfl

theorem constructs_reshape (reliable : g.Reliable) (value : Outlet) (dims : List Nat) :
    g.Constructs (.reshape dims) [value] (reshape value dims) := by
  simp only [Constructs, reshape, Stateful.ends_bind]
  refine Edit.ends_ask ?_ rfl
  intro type typed
  split
  · rfl
  · next reshaped shaped =>
    simp only [Stateful.ends_bind]
    refine Stateful.ends_lift ?_ rfl
    intro requested requestedCount
    refine Stateful.ends_lift ?_ rfl
    intro elements elementsCount
    split
    · next same =>
      subst same
      exact constructs_applyOperator reliable (.cons typed .nil)
        (.reshape shaped requestedCount elementsCount)
    · rfl

theorem constructs_unary (reliable : g.Reliable) (function : UnaryFunction) (value : Outlet) :
    g.Constructs (.unary function) [value] (unary function value) := by
  simp only [Constructs, unary, Stateful.ends_bind]
  refine Edit.ends_ask ?_ rfl
  intro type typed
  exact constructs_applyOperator reliable (.cons typed .nil) .unary

theorem constructs_binary (reliable : g.Reliable) (function : BinaryFunction)
    (first second : Outlet) :
    g.Constructs (.binary function) [first, second] (binary function first second) := by
  simp only [Constructs, binary, Stateful.ends_bind]
  refine Edit.ends_ask ?_ rfl
  intro firstType firstTyped
  refine Edit.ends_ask ?_ rfl
  intro secondType secondTyped
  refine Stateful.ends_lift ?_ rfl
  intro type fits
  exact constructs_applyOperator reliable (.cons firstTyped (.cons secondTyped .nil)) (.binary fits)

theorem constructs_clamp (reliable : g.Reliable) (value : Outlet) (range : ClampRange) :
    g.Constructs (.clamp range) [value] (clamp value range) := by
  simp only [Constructs, clamp, Stateful.ends_bind]
  refine Edit.ends_ask ?_ rfl
  intro type typed
  exact constructs_applyOperator reliable (.cons typed .nil) .clamp

theorem constructs_conv2d (reliable : g.Reliable) (image weights bias : Outlet)
    (convolution : Convolution) :
    g.Constructs (.conv2d convolution) [image, weights, bias]
      (conv2d image weights bias convolution) := by
  simp only [Constructs, conv2d, Stateful.ends_bind]
  refine Edit.ends_ask ?_ rfl
  intro imageType accepted
  rcases typeWith_eq_ok.mp accepted with ⟨imageTyped, floats⟩
  refine Edit.ends_ask ?_ rfl
  intro type convolved
  rcases convolvedTypeAt_eq_ok.mp convolved with
    ⟨_, weightsType, biasType, again, weightsTyped, biasTyped, fits⟩
  rcases Except.ok.inj (imageTyped.symm.trans again) with rfl
  exact constructs_applyOperator reliable
    (.cons imageTyped (.cons weightsTyped (.cons biasTyped .nil)))
    (.conv2d (of_decide_eq_true floats) fits)

theorem constructs_matMul (reliable : g.Reliable) (first second : Outlet) (range : ClampRange) :
    g.Constructs (.matMul range) [first, second] (matMul first second range) := by
  simp only [Constructs, matMul, Stateful.ends_bind]
  refine Edit.ends_ask ?_ rfl
  intro firstType firstTyped
  refine Edit.ends_ask ?_ rfl
  intro secondType secondTyped
  refine Stateful.ends_lift ?_ rfl
  intro type fits
  exact constructs_applyOperator reliable (.cons firstTyped (.cons secondTyped .nil)) (.matMul fits)

theorem constructs_quantize (reliable : g.Reliable) (value : Outlet) (quantization : Quantization)
    (dtype : DataType) :
    g.Constructs (.quantize quantization dtype) [value] (quantize value quantization dtype) := by
  simp only [Constructs, quantize, Stateful.ends_bind]
  refine Edit.ends_ask ?_ rfl
  intro type accepted
  rcases typeWith_eq_ok.mp accepted with ⟨typed, floats⟩
  split
  · next quantized =>
    exact constructs_applyOperator reliable (.cons typed .nil)
      (.quantize (of_decide_eq_true floats) quantized)
  · rfl

theorem constructs_dequantize (reliable : g.Reliable) (value : Outlet)
    (quantization : Quantization) :
    g.Constructs (.dequantize quantization) [value] (dequantize value quantization) := by
  simp only [Constructs, dequantize, Stateful.ends_bind]
  refine Edit.ends_ask ?_ rfl
  intro type accepted
  rcases typeWith_eq_ok.mp accepted with ⟨typed, quantized⟩
  exact constructs_applyOperator reliable (.cons typed .nil) (.dequantize quantized)

theorem constructs_accelUpload (reliable : g.Reliable) (value : Outlet) :
    g.Constructs .accelUpload [value] (accelUpload value) := by
  simp only [Constructs, accelUpload, Stateful.ends_bind]
  refine Edit.ends_ask ?_ rfl
  intro type accepted
  rcases typeWith_eq_ok.mp accepted with ⟨typed, quantized⟩
  exact constructs_applyOperator reliable (.cons typed .nil) (.accelUpload quantized)

theorem constructs_accelDownload (reliable : g.Reliable) (value : Outlet) :
    g.Constructs .accelDownload [value] (accelDownload value) := by
  simp only [Constructs, accelDownload, Stateful.ends_bind]
  refine Edit.ends_ask ?_ rfl
  intro type typed
  exact constructs_applyOperator reliable (.cons typed .nil) .accelDownload

theorem constructs_accelConv2d (reliable : g.Reliable) (image weights bias : Outlet)
    (convolution : Convolution) :
    g.Constructs (.accelConv2d convolution) [image, weights, bias]
      (accelConv2d image weights bias convolution) := by
  simp only [Constructs, accelConv2d, Stateful.ends_bind]
  refine Edit.ends_ask ?_ rfl
  intro imageType accepted
  rcases typeWith_eq_ok.mp accepted with ⟨imageTyped, quantized⟩
  refine Edit.ends_ask ?_ rfl
  intro weightsType weightsTyped
  split
  · next kernel =>
    simp only [Stateful.ends_bind]
    refine Edit.ends_ask ?_ rfl
    intro type convolved
    rcases convolvedTypeAt_eq_ok.mp convolved with
      ⟨_, _, biasType, imageAgain, weightsAgain, biasTyped, fits⟩
    rcases Except.ok.inj (imageTyped.symm.trans imageAgain) with rfl
    rcases Except.ok.inj (weightsTyped.symm.trans weightsAgain) with rfl
    exact constructs_applyOperator reliable
      (.cons imageTyped (.cons weightsTyped (.cons biasTyped .nil)))
      (.accelConv2d quantized kernel fits)
  · rfl

end

end Graph

/-! ## Statements -/

/-- What the node of a statement computes. -/
def Statement.operator : Statement → Operator
  | input _ => .input
  | output _ => .output
  | constant _ data => .constant data
  | transpose _ axes => .transpose axes
  | reshape _ dims => .reshape dims
  | clamp _ range => .clamp range
  | conv2d _ _ _ convolution => .conv2d convolution
  | matMul _ _ => .matMul .unbounded
  | quantize _ quantization dtype => .quantize quantization dtype
  | dequantize _ quantization => .dequantize quantization
  | unary function _ => .unary function
  | binary function _ _ => .binary function

/-- The values that a statement refers to, in the order of the inputs they go to. -/
def Statement.operands : Statement → List Outlet
  | input _ | constant _ _ => []
  | output value | transpose value _ | reshape value _ | clamp value _ | quantize value _ _
  | dequantize value _ | unary _ value => [value]
  | matMul first second | binary _ first second => [first, second]
  | conv2d image weights bias _ => [image, weights, bias]

namespace Script

open TensorCompiler.Graph

variable {g h : Graph}

/-- A statement adds the one node that it describes.  The value it yields is the result of
that node, unless it declares an output. -/
theorem adds_of_build {name : String} {statement : Statement} {value? : Option Outlet}
    (intact : g.Intact) (done : statement.build name g = .ok value? h) :
    g.Adds statement.operator statement.operands h ∧
      value? = if statement.operator = .output then none else some ⟨g.slots.size, 0⟩ := by
  have reliable := intact.reliable
  have yields {edit : Edit Outlet} {op : Operator} {operands : List Outlet}
      (constructs : g.Constructs op operands edit)
      (made : ∃ outlet, edit g = .ok outlet h ∧ some outlet = value?) :
      g.Adds op operands h ∧ value? = some ⟨g.slots.size, 0⟩ := by
    rcases made with ⟨outlet, made, rfl⟩
    rcases constructs.of_ok made with ⟨rfl, adds⟩
    exact ⟨adds, rfl⟩
  cases statement <;>
    simp only [Statement.build, Stateful.map_eq_ok, Stateful.bind_eq_ok, Stateful.pure_eq_ok]
      at done
  case output value =>
      rcases done with ⟨_, _, declared, rfl, rfl⟩
      exact ⟨(ends_output reliable name value).of_ok declared, rfl⟩
  case input type => exact yields (constructs_input reliable name type) done
  case constant type data => exact yields (constructs_constant reliable type data) done
  case transpose value axes => exact yields (constructs_transpose reliable value axes) done
  case reshape value dims => exact yields (constructs_reshape reliable value dims) done
  case clamp value range => exact yields (constructs_clamp reliable value range) done
  case conv2d image weights bias convolution =>
      exact yields (constructs_conv2d reliable image weights bias convolution) done
  case matMul first second => exact yields (constructs_matMul reliable first second _) done
  case quantize value quantization dtype =>
      exact yields (constructs_quantize reliable value quantization dtype) done
  case dequantize value quantization =>
      exact yields (constructs_dequantize reliable value quantization) done
  case unary function value => exact yields (constructs_unary reliable function value) done
  case binary function first second =>
      exact yields (constructs_binary reliable function first second) done

end Script

end TensorCompiler
