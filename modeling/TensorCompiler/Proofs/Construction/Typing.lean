import Mathlib.Data.List.Forall2
import TensorCompiler.Graph.Build
import TensorCompiler.Proofs.Rewriting.Growth

namespace TensorCompiler

/-!
# Well-typed graphs

The types of an operator's operands decide whether it can be applied to them
and what it then produces.  A graph is valid if it is linked and acyclic, every
input of every node is connected, and the types at the two ends of each node
are those of its operator.

The typed constructors add one node with all of its operands.  This module says
what such an addition changes, and that it always succeeds on operands that are
there.
-/

/-- An operator can be applied to operands of the given types, and its results
then have the given types. -/
inductive Operator.HasTypes : Operator → List TensorType → List TensorType → Prop where
  | input {type : TensorType} : HasTypes .input [] [type]
  | output {type : TensorType} : HasTypes .output [type] []
  | constant {data : List UInt8} {type : TensorType} (fits : type.bytes = .ok data.length) :
      HasTypes (.constant data) [] [type]
  | transpose {axes : List Nat} {type : TensorType}
      (permutes : Graph.isPermutation axes type.rank = true) :
      HasTypes (.transpose axes) [type] [⟨type.dtype, Graph.permuteDims axes type.shape⟩]
  | reshape {dims : List Nat} {type reshaped : TensorType} {count : Nat}
      (shaped : TensorType.ofDims? type.dtype dims = some reshaped)
      (requested : reshaped.elements = .ok count) (present : type.elements = .ok count) :
      HasTypes (.reshape dims) [type] [reshaped]
  | unary {function : UnaryFunction} {type : TensorType} : HasTypes (.unary function) [type] [type]
  | binary {function : BinaryFunction} {first second type : TensorType}
      (fits : Graph.binaryType function first second = .ok type) :
      HasTypes (.binary function) [first, second] [type]
  | clamp {range : ClampRange} {type : TensorType} : HasTypes (.clamp range) [type] [type]
  | conv2d {convolution : Convolution} {image weights bias type : TensorType}
      (floats : image.dtype = .f32)
      (fits : Graph.convolvedType convolution image weights bias = .ok type) :
      HasTypes (.conv2d convolution) [image, weights, bias] [type]
  | matMul {range : ClampRange} {first second type : TensorType}
      (fits : Graph.productType first second = .ok type) :
      HasTypes (.matMul range) [first, second] [type]
  | quantize {quantization : Quantization} {dtype : DataType} {type : TensorType}
      (floats : type.dtype = .f32) (quantized : dtype.isQuantized = true) :
      HasTypes (.quantize quantization dtype) [type] [⟨dtype, type.shape⟩]
  | dequantize {quantization : Quantization} {type : TensorType}
      (quantized : type.dtype.isQuantized = true) :
      HasTypes (.dequantize quantization) [type] [⟨.f32, type.shape⟩]
  | accelUpload {type : TensorType} (quantized : type.dtype.isQuantized = true) :
      HasTypes .accelUpload [type] [type]
  | accelDownload {type : TensorType} : HasTypes .accelDownload [type] [type]
  | accelConv2d {convolution : Convolution} {image weights bias type : TensorType}
      (quantized : image.dtype.isQuantized = true)
      (kernel : Graph.isAcceleratedKernel weights = true)
      (fits : Graph.convolvedType convolution image weights bias = .ok type) :
      HasTypes (.accelConv2d convolution) [image, weights, bias] [type]

theorem Operator.HasTypes.counts {op : Operator} {operands results : List TensorType}
    (typing : op.HasTypes operands results) :
    operands.length = op.inputCount ∧ results.length = op.outputCount := by
  cases typing <;> exact ⟨rfl, rfl⟩

/-- An operator has at most one result. -/
theorem Operator.HasTypes.eq_singleton {op : Operator} {operands results : List TensorType}
    {index : Nat} {type : TensorType} (typing : op.HasTypes operands results)
    (entry : results[index]? = some type) : index = 0 ∧ results = [type] := by
  cases typing <;> cases index <;> simp_all

/-- What the typing of a node depends on: its operator, what its inputs read, and
the types of its results. -/
structure Signature where
  op : Operator
  inputs : List (Option Outlet)
  results : List TensorType
  deriving DecidableEq

def Node.signature (node : Node) : Signature :=
  ⟨node.op, node.inputs, node.outputs.map Wire.type⟩

theorem Node.signature_of_unread {first second : Node} (same : first.unread = second.unread) :
    first.signature = second.signature := by
  have signatures := congrArg Node.signature same
  simpa [Node.unread, Node.signature, Function.comp_def, Wire.unlinked] using signatures

namespace Graph

/-- Some outlets carry values of the given types. -/
def TypesAt (g : Graph) (sources : List Outlet) (types : List TensorType) : Prop :=
  List.Forall₂ (fun source type => g.outputType source = .ok type) sources types

/-- Every input of a node is connected, to operands that its operator takes. -/
def WellTyped (g : Graph) (node : Node) : Prop :=
  ∃ sources types, node.inputs = sources.map some ∧ g.TypesAt sources types ∧
    node.op.HasTypes types (node.outputs.map Wire.type)

/-- Every node is well-typed. -/
def Typed (g : Graph) : Prop :=
  ∀ id node, g.node? id = some node → g.WellTyped node

/-- What the typed constructors maintain. -/
structure Valid (g : Graph) : Prop where
  linked : g.Linked
  acyclic : g.Acyclic
  typed : g.Typed
  declared : ∀ id ∈ g.outputs, g.op? id = some .output

theorem valid_empty : Graph.empty.Valid where
  linked := by
    constructor
    · intro inlet outlet
      constructor
      · intro reads
        rcases reads_iff.mp reads with ⟨_, found, _⟩
        cases found
      · rintro ⟨_, wired, _⟩
        rcases wire_eq_ok.mp wired with ⟨_, found, _⟩
        cases found
    · intro outlet wire wired
      rcases wire_eq_ok.mp wired with ⟨_, found, _⟩
      cases found
  acyclic := by
    intro id cycle
    rcases Relation.TransGen.head'_iff.mp cycle with ⟨_, needs, _⟩
    rcases mem_producerIds.mp needs with ⟨_, found, _⟩
    cases found
  typed := by
    intro id node found
    cases found
  declared := by
    intro id member
    cases member

section

variable {g h : Graph}

theorem outputType_iff {outlet : Outlet} {type : TensorType} :
    g.outputType outlet = .ok type ↔ ∃ node, g.node? outlet.node = some node ∧
      node.signature.results[outlet.index]? = some type := by
  simp only [outputType_eq_ok, wire_eq_ok, Node.signature, List.getElem?_map,
    Option.map_eq_some_iff]
  constructor
  · rintro ⟨wire, ⟨node, found, entry⟩, same⟩
    exact ⟨node, found, wire, entry, same⟩
  · rintro ⟨node, found, wire, entry, same⟩
    exact ⟨wire, ⟨node, found, entry⟩, same⟩

theorem TypesAt.mono {sources : List Outlet} {types : List TensorType}
    (typed : g.TypesAt sources types)
    (kept : ∀ outlet type, g.outputType outlet = .ok type → h.outputType outlet = .ok type) :
    h.TypesAt sources types :=
  typed.imp fun _ _ found => kept _ _ found

theorem TypesAt.redirect {sources : List Outlet} {types : List TensorType}
    {change : Outlet → Outlet} (typed : g.TypesAt sources types)
    (kept : ∀ source ∈ sources, ∀ type, g.outputType source = .ok type →
      h.outputType (change source) = .ok type) : h.TypesAt (sources.map change) types := by
  unfold TypesAt at typed
  induction typed with
  | nil => exact .nil
  | @cons source _ _ _ found _ inductionHypothesis =>
      refine .cons (kept source List.mem_cons_self _ found) (inductionHypothesis ?_)
      exact fun other member => kept other (List.mem_cons_of_mem source member)

theorem TypesAt.exists_wire {sources : List Outlet} {types : List TensorType}
    (typed : g.TypesAt sources types) {source : Outlet} (member : source ∈ sources) :
    ∃ wire, g.wire source = .ok wire := by
  unfold TypesAt at typed
  induction typed with
  | nil => cases member
  | cons found _ inductionHypothesis =>
      rcases List.mem_cons.mp member with rfl | later
      · rcases outputType_eq_ok.mp found with ⟨wire, wired, _⟩
        exact ⟨wire, wired⟩
      · exact inductionHypothesis later

theorem TypesAt.lt_size {sources : List Outlet} {types : List TensorType}
    (typed : g.TypesAt sources types) {source : Outlet} (member : source ∈ sources) :
    source.node < g.slots.size := by
  rcases typed.exists_wire member with ⟨wire, wired⟩
  rcases wire_eq_ok.mp wired with ⟨node, found, _⟩
  exact lt_size_of_node? found

theorem TypesAt.eq_singleton {sources : List Outlet} {type : TensorType}
    (typed : g.TypesAt sources [type]) :
    ∃ source, sources = [source] ∧ g.outputType source = .ok type := by
  rcases List.forall₂_cons_right_iff.mp typed with ⟨source, _, found, rest, rfl⟩
  rcases List.forall₂_nil_right_iff.mp rest with rfl
  exact ⟨source, rfl, found⟩

theorem TypesAt.map_eq {sources : List Outlet} {types : List TensorType}
    (typed : g.TypesAt sources types) {view : Outlet → TensorType}
    (agrees : ∀ source ∈ sources, ∀ type, g.outputType source = .ok type → view source = type) :
    sources.map view = types := by
  unfold TypesAt at typed
  induction typed with
  | nil => rfl
  | @cons source _ _ _ found _ inductionHypothesis =>
      rw [List.map_cons, agrees source List.mem_cons_self _ found, inductionHypothesis]
      exact fun other member => agrees other (List.mem_cons_of_mem source member)

/-! ## One more node -/

/-- A node whose inputs read the given operands. -/
def connectedNode (op : Operator) (name : String) (operands : List Outlet)
    (types : List TensorType) : Node :=
  { freshNode op name types with inputs := operands.map some }

/-- One graph is another with a further node at the next position, which
nothing reads yet. -/
structure Appended (g : Graph) (node : Node) (h : Graph) : Prop where
  links : g.KeepsLinks h
  acyclic : h.Acyclic
  size : h.slots.size = g.slots.size + 1
  live : h.live = g.live + 1
  old : ∀ id, id < g.slots.size → (h.node? id).map Node.unread = (g.node? id).map Node.unread
  new : (h.node? g.slots.size).map Node.unread = some node.unread
  unread : ∀ id, ¬ h.Needs id g.slots.size
  outputs : h.outputs = (g.push node).outputs

variable {node : Node} {operand : Outlet}

theorem Faithful.not_needs_size (faithful : g.Faithful) (id : Nat) :
    ¬ g.Needs id g.slots.size := by
  intro needs
  rcases faithful.contains_of_needs needs with ⟨node, found⟩
  exact Nat.lt_irrefl _ (lt_size_of_node? found)

theorem Appended.push {op : Operator} {name : String} {types : List TensorType}
    (faithful : g.Faithful) (acyclic : g.Acyclic) :
    g.Appended (freshNode op name types) (g.push (freshNode op name types)) where
  links := keepsLinks_push
  acyclic := acyclic.push
  size := Array.size_push _
  live := rfl
  old := by
    intro id inside
    rw [node?_push, if_neg (Nat.ne_of_lt inside)]
  new := by
    rw [node?_push, if_pos rfl]
    rfl
  unread id needs := faithful.not_needs_size id (needs_push.mp needs)
  outputs := rfl

theorem Appended.exists_new (appended : g.Appended node h) :
    ∃ added, h.node? g.slots.size = some added ∧ added.unlinked = node.unlinked ∧
      added.inputs = node.inputs := by
  rcases Option.map_eq_some_iff.mp appended.new with ⟨added, found, same⟩
  exact ⟨added, found, Node.unread_eq_iff.mp same⟩

/-- A node is added beside a match if its operands do not depend on it. -/
theorem Appended.enlarges {matched : List Nat} (appended : g.Appended node h)
    (present : ∀ id ∈ matched, id < g.slots.size)
    (independent : ∀ source, some source ∈ node.inputs → ∀ id ∈ matched,
      ¬ h.Depends source.node id) : g.Enlarges matched h where
  links := appended.links
  acyclic := appended.acyclic
  size := by
    rw [appended.size]
    exact Nat.le_succ _
  old := appended.old
  independent := by
    intro id fresh target member depends
    rcases Relation.ReflTransGen.cases_head depends with rfl | ⟨source, needs, rest⟩
    · exact absurd (present id member) (Nat.not_lt.mpr fresh)
    · have inside := needs.lt_size
      rw [appended.size] at inside
      obtain rfl : id = g.slots.size := Nat.le_antisymm (Nat.le_of_lt_succ inside) fresh
      rcases appended.exists_new with ⟨added, found, _, inputs⟩
      rcases mem_producerIds.mp needs with ⟨again, foundAgain, outlet, produced, rfl⟩
      rcases Option.some.inj (found.symm.trans foundAgain) with rfl
      rcases mem_producers.mp produced with ⟨index, entry⟩
      rw [inputs] at entry
      exact independent outlet (List.mem_of_getElem? entry) target member rest
  declared := by
    rw [appended.outputs, Graph.push]
    split
    · exact ⟨[g.slots.size], rfl, fun id new => Nat.le_of_eq (List.mem_singleton.mp new).symm⟩
    · exact ⟨[], (List.append_nil _).symm, fun _ none => absurd none List.not_mem_nil⟩

theorem Appended.enlarges_nil (appended : g.Appended node h) : g.Enlarges [] h :=
  appended.enlarges (fun _ member => absurd member List.not_mem_nil)
    fun _ _ _ member => absurd member List.not_mem_nil

/-- Nothing that was there before depends on the new node. -/
theorem Appended.not_depends_new (appended : g.Appended node h) {id : Nat}
    (inside : id < g.slots.size) : ¬ h.Depends id g.slots.size := by
  intro depends
  rcases Relation.ReflTransGen.cases_tail depends with same | ⟨between, _, needs⟩
  · exact Nat.ne_of_lt inside same.symm
  · exact appended.unread between needs

/-- A free input of the new node can be connected to anything that was there
before. -/
theorem Appended.connect {index : Nat} {wire : Wire} (appended : g.Appended node h)
    (free : node.inputs[index]? = some none) (wired : g.wire operand = .ok wire) :
    Graph.connect ⟨g.slots.size, index⟩ operand h = .ok () (h.link ⟨g.slots.size, index⟩ operand) ∧
      g.Appended { node with inputs := node.inputs.set index (some operand) }
        (h.link ⟨g.slots.size, index⟩ operand) := by
  rcases appended.exists_new with ⟨added, found, _, inputs⟩
  rcases appended.enlarges_nil.exists_wire wired with ⟨kept, keptWired, _⟩
  rcases wire_eq_ok.mp wired with ⟨producer, producerFound, _⟩
  have inside := lt_size_of_node? producerFound
  have has : h.HasInlet ⟨g.slots.size, index⟩ := by
    refine ⟨added, found, ?_⟩
    rw [inputs]
    exact (List.getElem?_eq_some_iff.mp free).1
  have unconnected : ∀ other, ¬ h.Reads ⟨g.slots.size, index⟩ other := by
    intro other reads
    rcases reads_iff.mp reads with ⟨again, foundAgain, entry⟩
    rcases Option.some.inj (found.symm.trans foundAgain) with rfl
    rw [inputs, free] at entry
    cases entry
  have independent := appended.not_depends_new inside
  have same := sameNodes_link h ⟨g.slots.size, index⟩ operand
  constructor
  · refine connect_eq_ok.mpr (connected_of_free has unconnected keptWired ?_)
    rw [Bool.eq_false_iff]
    exact fun depends => independent (dependsOn_iff.mp depends)
  · refine ⟨appended.links.trans (keepsLinks_link has unconnected keptWired),
      appended.acyclic.link has independent, same.size.trans appended.size, appended.live, ?_, ?_,
      ?_, same.outputs.trans appended.outputs⟩
    · intro id isOld
      rw [node?_unread_link, node?_setSource_of_ne (Nat.ne_of_lt isOld)]
      exact appended.old id isOld
    · rw [node?_unread_link, setSource, node?_modifyNode, if_pos rfl, found]
      have unread := appended.new
      rw [found] at unread
      simp only [Option.map_some, Option.some.injEq, Node.unread, Node.mk.injEq] at unread ⊢
      rcases unread with ⟨sameOp, sameName, sameInputs, sameOutputs, sameMarks⟩
      exact ⟨sameOp, sameName, congrArg (·.set index (some operand)) sameInputs, sameOutputs,
        sameMarks⟩
    · intro id needs
      rcases needs_link has needs with before | ⟨_, source⟩
      · exact appended.unread id before
      · exact Nat.ne_of_lt inside source.symm

/-- The inputs of the new node are connected one after the other.  Those
before the given position are connected already, the others are free. -/
theorem Appended.connectFrom {operands : List Outlet} {before : List (Option Outlet)}
    (appended : g.Appended node h)
    (inputs : node.inputs = before ++ List.replicate operands.length none)
    (wired : ∀ operand ∈ operands, ∃ wire, g.wire operand = .ok wire) :
    ∃ k, Graph.connectFrom g.slots.size before.length operands h = .ok () k ∧
      g.Appended { node with inputs := before ++ operands.map some } k := by
  induction operands generalizing node h before with
  | nil =>
      refine ⟨h, rfl, ?_⟩
      have same : before ++ ([] : List Outlet).map some = node.inputs := inputs.symm
      rw [same]
      exact appended
  | cons operand rest inductionHypothesis =>
      rcases wired operand List.mem_cons_self with ⟨wire, operandWired⟩
      rw [List.length_cons, List.replicate_succ] at inputs
      have free : node.inputs[before.length]? = some none := by simp [inputs]
      rcases appended.connect free operandWired with ⟨done, next⟩
      have nextInputs : node.inputs.set before.length (some operand) =
          (before ++ [some operand]) ++ List.replicate rest.length none := by simp [inputs]
      rcases inductionHypothesis next nextInputs
        (fun other member => wired other (List.mem_cons_of_mem operand member)) with
        ⟨k, restDone, final⟩
      refine ⟨k, ?_, ?_⟩
      · rw [List.length_append, List.length_singleton] at restDone
        exact Stateful.bind_eq_ok.mpr ⟨(), _, done, restDone⟩
      · simpa using final

/-- A node can be added to any operands that are there. -/
theorem exists_appended {op : Operator} {operands : List Outlet}
    (name : String) (types : List TensorType) (faithful : g.Faithful) (acyclic : g.Acyclic)
    (count : operands.length = op.inputCount)
    (wired : ∀ operand ∈ operands, ∃ wire, g.wire operand = .ok wire) :
    ∃ h, connectFrom g.slots.size 0 operands (g.push (freshNode op name types)) = .ok () h ∧
      g.Appended (connectedNode op name operands types) h := by
  have start : g.Appended (freshNode op name types) (g.push (freshNode op name types)) :=
    .push faithful acyclic
  have inputs : (freshNode op name types).inputs = [] ++ List.replicate operands.length none := by
    rw [count]
    rfl
  exact start.connectFrom inputs wired

/-- An operator can be applied to any operands that suit it. -/
theorem exists_applyOperator {op : Operator} {operands : List Outlet} {types : List TensorType}
    {result : TensorType} (faithful : g.Faithful) (acyclic : g.Acyclic)
    (typed : g.TypesAt operands types) (accepted : op.HasTypes types [result]) :
    ∃ name h, applyOperator op operands result g = .ok ⟨g.slots.size, 0⟩ h ∧
      g.Appended (connectedNode op name operands [result]) h := by
  rcases accepted.counts with ⟨inputs, outputs⟩
  rcases exists_appended (op.opcode.name ++ "_" ++ toString g.slots.size) [result] faithful
    acyclic (typed.length_eq.trans inputs) (fun _ member => typed.exists_wire member) with
    ⟨h, connected, appended⟩
  refine ⟨_, h, ?_, appended⟩
  simp only [applyOperator, Stateful.bind_eq_ok, Stateful.get_eq_ok, Stateful.pure_eq_ok]
  exact ⟨g, g, ⟨rfl, rfl⟩, g.slots.size, _, addNode_eq_ok.mpr ⟨outputs, rfl, rfl⟩, (), h,
    connected, rfl, rfl⟩

/-- The attributes of the new node can be changed: all but its operator, its inputs and
its results. -/
theorem Appended.updateNode {change : Node → Node} (appended : g.Appended node h)
    (operator : ∀ node, (change node).op = node.op)
    (inputs : ∀ node, (change node).inputs = node.inputs)
    (outputs : ∀ node, (change node).outputs = node.outputs)
    (unread : ∀ node, (change node).unread = change node.unread) :
    ∃ k, Graph.updateNode g.slots.size change h = .ok () k ∧ g.Appended (change node) k := by
  rcases Option.map_eq_some_iff.mp appended.new with ⟨added, found, same⟩
  have links : h.SameLinks (h.modifyNode g.slots.size change) :=
    sameLinks_modifyNode h g.slots.size inputs outputs
  refine ⟨_, ?_, appended.links.trans links.keepsLinks,
    appended.acyclic.mono fun _ _ needs => links.needs.mp needs,
    (slots_size_modifyNode _ _ _).trans appended.size, appended.live, ?_, ?_,
    fun id needs => appended.unread id (links.needs.mp needs), ?_⟩
  · simp only [Graph.updateNode, Edit.step_eq_ok, Checked.bind_eq_ok, Checked.pure_eq_ok]
    exact ⟨added, node_eq_ok.mpr found, trivial⟩
  · intro id isOld
    rw [node?_modifyNode, if_neg (Nat.ne_of_lt isOld)]
    exact appended.old id isOld
  · rw [node?_modifyNode, if_pos rfl, found, Option.map_some, Option.map_some, unread, same,
      unread]
  · have listed : h.outputs = (g.push node).outputs := appended.outputs
    simp only [Graph.push] at listed ⊢
    rw [operator]
    exact listed

/-- The marks of the new node can be set. -/
theorem Appended.updateMarks (change : Marks → Marks) (appended : g.Appended node h) :
    ∃ k, Graph.updateMarks g.slots.size change h = .ok () k ∧
      g.Appended { node with marks := change node.marks } k :=
  appended.updateNode (fun _ => rfl) (fun _ => rfl) (fun _ => rfl) fun _ => rfl

/-- The new node can be named. -/
theorem Appended.setName (name : String) (appended : g.Appended node h) :
    ∃ k, Graph.setName g.slots.size name h = .ok () k ∧
      g.Appended { node with name := name } k :=
  appended.updateNode (fun _ => rfl) (fun _ => rfl) (fun _ => rfl) fun _ => rfl

/-! ## Validity -/

theorem WellTyped.congr {now : Node} (typed : g.WellTyped node)
    (same : now.signature = node.signature)
    (kept : ∀ outlet type, g.outputType outlet = .ok type → h.outputType outlet = .ok type) :
    h.WellTyped now := by
  rcases typed with ⟨sources, types, connected, operands, accepted⟩
  rcases Signature.mk.inj same with ⟨op, inputs, results⟩
  refine ⟨sources, types, inputs.trans connected, operands.mono kept, ?_⟩
  rw [op, results]
  exact accepted

theorem wellTyped_connectedNode {op : Operator} {name : String} {operands : List Outlet}
    {types results : List TensorType} (typed : g.TypesAt operands types)
    (accepted : op.HasTypes types results) :
    g.WellTyped (connectedNode op name operands results) := by
  refine ⟨operands, types, rfl, typed, ?_⟩
  have same : (connectedNode op name operands results).outputs.map Wire.type = results := by
    simp [connectedNode, freshNode, Function.comp_def]
  rw [same]
  exact accepted

/-- A change that keeps every signature keeps a graph well-typed. -/
theorem Typed.congr (typed : g.Typed)
    (same : ∀ id, (h.node? id).map Node.signature = (g.node? id).map Node.signature) :
    h.Typed := by
  intro id now found
  rcases exists_node_of_view (same id).symm found with ⟨node, foundBefore, signature⟩
  apply (typed id node foundBefore).congr signature.symm
  intro outlet type typed
  rcases outputType_iff.mp typed with ⟨producer, producerFound, result⟩
  rcases exists_node_of_view (same outlet.node) producerFound with
    ⟨kept, keptFound, keptSignature⟩
  exact outputType_iff.mpr ⟨kept, keptFound, keptSignature ▸ result⟩

theorem Valid.congr (valid : g.Valid) (linked : h.Linked) (acyclic : h.Acyclic)
    (outputs : h.outputs = g.outputs)
    (same : ∀ id, (h.node? id).map Node.signature = (g.node? id).map Node.signature) :
    h.Valid where
  linked := linked
  acyclic := acyclic
  typed := Typed.congr valid.typed same
  declared := by
    intro id member
    rw [outputs] at member
    rcases Option.map_eq_some_iff.mp (valid.declared id member) with ⟨node, found, op⟩
    rcases exists_node_of_view (same id) found with ⟨kept, keptFound, signature⟩
    rw [op?, keptFound, Option.map_some, ← op]
    exact congrArg (fun signature => some signature.op) signature

theorem Appended.exists_new_signature (appended : g.Appended node h) :
    ∃ added, h.node? g.slots.size = some added ∧ added.signature = node.signature := by
  rcases Option.map_eq_some_iff.mp appended.new with ⟨added, found, same⟩
  exact ⟨added, found, Node.signature_of_unread same⟩

theorem Appended.signature_old (appended : g.Appended node h) {id : Nat}
    (inside : id < g.slots.size) :
    (h.node? id).map Node.signature = (g.node? id).map Node.signature :=
  map_view_mono (appended.old id inside) fun _ _ => Node.signature_of_unread

/-- A node of the larger graph was there before, or it is the new one. -/
theorem Appended.node_cases (appended : g.Appended node h) {id : Nat} {now : Node}
    (found : h.node? id = some now) :
    (id < g.slots.size ∧ ∃ before, g.node? id = some before ∧ before.signature = now.signature) ∨
      (id = g.slots.size ∧ now.signature = node.signature) := by
  have inside := lt_size_of_node? found
  rw [appended.size] at inside
  rcases Nat.lt_or_eq_of_le (Nat.le_of_lt_succ inside) with isOld | rfl
  · exact Or.inl ⟨isOld, exists_node_of_view (appended.signature_old isOld).symm found⟩
  · rcases appended.exists_new_signature with ⟨added, foundAdded, same⟩
    rcases Option.some.inj (found.symm.trans foundAdded) with rfl
    exact Or.inr ⟨rfl, same⟩

theorem Appended.outputType (appended : g.Appended node h) {outlet : Outlet} {type : TensorType}
    (typed : g.outputType outlet = .ok type) : h.outputType outlet = .ok type := by
  rcases outputType_iff.mp typed with ⟨before, found, result⟩
  rcases exists_node_of_view (appended.signature_old (lt_size_of_node? found)) found with
    ⟨kept, present, same⟩
  exact outputType_iff.mpr ⟨kept, present, same ▸ result⟩

/-- A graph stays well-typed when a well-typed node is added to it. -/
theorem Typed.append (typed : g.Typed) (appended : g.Appended node h) (new : g.WellTyped node) :
    h.Typed := by
  intro id now found
  rcases appended.node_cases found with ⟨_, before, foundBefore, same⟩ | ⟨_, same⟩
  · exact (typed id before foundBefore).congr same.symm fun _ _ => appended.outputType
  · exact new.congr same fun _ _ => appended.outputType

theorem Valid.append (valid : g.Valid) (appended : g.Appended node h) (typed : g.WellTyped node) :
    h.Valid where
  linked := appended.links.linked valid.linked
  acyclic := appended.acyclic
  typed := Typed.append valid.typed appended typed
  declared := by
    have old : ∀ id ∈ g.outputs, h.op? id = some .output := by
      intro id member
      rcases Option.map_eq_some_iff.mp (valid.declared id member) with ⟨before, found, op⟩
      rcases exists_node_of_view (appended.signature_old (lt_size_of_node? found)) found with
        ⟨kept, present, same⟩
      rw [op?, present, Option.map_some, ← op]
      exact congrArg (fun signature => some signature.op) same
    intro id member
    rw [appended.outputs, push] at member
    split at member
    · next isOutput =>
      rcases List.mem_append.mp member with before | new
      · exact old id before
      · rcases appended.exists_new_signature with ⟨added, found, same⟩
        rw [List.mem_singleton.mp new, op?, found, Option.map_some, ← isOutput]
        exact congrArg (fun signature => some signature.op) same
    · exact old id member

end

end Graph
end TensorCompiler
