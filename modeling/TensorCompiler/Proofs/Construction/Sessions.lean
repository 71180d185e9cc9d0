import TensorCompiler.Proofs.Construction.Additions

namespace TensorCompiler

/-!
# Sessions

A session sends any requests to a graph, one after the other, and goes on when one
of them is refused or breaks off.  Whatever the requests are, the graph is intact
all the time, and the position of a node that has been removed is never used again.
-/

/-- A request to a graph. -/
inductive Operation where
  | addNode (op : Operator) (name : String) (types : List TensorType)
  | input (name : String) (type : TensorType)
  | output (name : String) (value : Outlet)
  | constant (type : TensorType) (data : List UInt8)
  | constantFloats (dims : List Nat) (values : List Binary32)
  | transpose (value : Outlet) (axes : List Nat)
  | reshape (value : Outlet) (dims : List Nat)
  | unary (function : UnaryFunction) (value : Outlet)
  | binary (function : BinaryFunction) (first second : Outlet)
  | clamp (value : Outlet) (range : ClampRange)
  | conv2d (image weights bias : Outlet) (convolution : Convolution)
  | matMul (first second : Outlet) (range : ClampRange)
  | quantize (value : Outlet) (quantization : Quantization) (dtype : DataType)
  | dequantize (value : Outlet) (quantization : Quantization)
  | accelUpload (value : Outlet)
  | accelDownload (value : Outlet)
  | accelConv2d (image weights bias : Outlet) (convolution : Convolution)
  | connect (inlet : Inlet) (outlet : Outlet)
  | disconnect (inlet : Inlet)
  | replaceUses (old new : Outlet)
  | removeUnreachable
  | setName (id : Nat) (name : String)
  | updateMarks (id : Nat) (change : Marks → Marks)
  | setMemoryKind (outlet : Outlet) (kind : MemoryKind)
  | setNoReuse (outlet : Outlet) (noReuse : Bool)

namespace Operation

/-- The edit that a request asks for. -/
def edit : Operation → Edit Unit
  | addNode op name types => discard (Graph.addNode op name types)
  | input name type => discard (Graph.input name type)
  | output name value => discard (Graph.output name value)
  | constant type data => discard (Graph.constant type data)
  | constantFloats dims values => discard (Graph.constantFloats dims values)
  | transpose value axes => discard (Graph.transpose value axes)
  | reshape value dims => discard (Graph.reshape value dims)
  | unary function value => discard (Graph.unary function value)
  | binary function first second => discard (Graph.binary function first second)
  | clamp value range => discard (Graph.clamp value range)
  | conv2d image weights bias convolution =>
    discard (Graph.conv2d image weights bias convolution)
  | matMul first second range => discard (Graph.matMul first second range)
  | quantize value quantization dtype => discard (Graph.quantize value quantization dtype)
  | dequantize value quantization => discard (Graph.dequantize value quantization)
  | accelUpload value => discard (Graph.accelUpload value)
  | accelDownload value => discard (Graph.accelDownload value)
  | accelConv2d image weights bias convolution =>
    discard (Graph.accelConv2d image weights bias convolution)
  | connect inlet outlet => Graph.connect inlet outlet
  | disconnect inlet => discard (Graph.disconnect inlet)
  | replaceUses old new => Graph.replaceUses old new
  | removeUnreachable => discard Graph.removeUnreachable
  | setName id name => Graph.setName id name
  | updateMarks id change => Graph.updateMarks id change
  | setMemoryKind outlet kind => Graph.setMemoryKind outlet kind
  | setNoReuse outlet noReuse => Graph.setNoReuse outlet noReuse

/-- The graph after a request, granted or not. -/
def perform (operation : Operation) (g : Graph) : Graph :=
  Stateful.final operation.edit g

/-- The graph after some requests. -/
def performAll (operations : List Operation) (g : Graph) : Graph :=
  operations.foldl (fun g operation => operation.perform g) g

end Operation

namespace Graph

variable {g h : Graph}

/-! ## One request -/

/-- What a request can do to a graph that neither adds a bare node nor touches a
link: nothing at all, add a node on operands that suit it, change attributes, or
sweep. -/
inductive Effect (g : Graph) : Graph → Prop
  | unchanged : Effect g g
  | added {op : Operator} {operands : List Outlet} {h : Graph} (adds : g.Adds op operands h) :
      Effect g h
  | relabelled {h : Graph} (same : g.Relabelled h) : Effect g h
  | swept : Effect g g.swept

theorem Effect.evolvesLinked (effect : g.Effect h) (intact : g.Intact) : g.EvolvesLinked h := by
  cases effect with
  | unchanged => exact .refl intact
  | added adds =>
      rcases adds with ⟨_, _, _, _, _, appended⟩
      exact appended.evolvesLinked intact
  | relabelled same => exact same.toSameInventory.evolvesLinked same.toSameLinks intact
  | swept => exact intact.evolvesLinked_swept

/-- Wherever an edit ends, it has had such an effect. -/
def HasEffect (g : Graph) (edit : Edit Unit) : Prop :=
  Stateful.Ends edit g (fun _ h => g.Effect h) g.Effect

theorem Constructs.discard {op : Operator} {operands : List Outlet} {run : Edit Outlet}
    (constructs : g.Constructs op operands run) :
    Stateful.Ends (Functor.discard run) g (fun _ h => g.Adds op operands h) (· = g) :=
  Stateful.ends_map.mpr (constructs.imp (fun _ _ done => done.2) fun _ same => same)

theorem hasEffect_updateNode {change : Node → Node} (g : Graph) (id : Nat)
    (signature : ∀ node, (change node).signature = node.signature)
    (outputs : ∀ node, (change node).outputs = node.outputs) :
    g.HasEffect (updateNode id change) := by
  refine Edit.ends_step ?_ .unchanged
  intro _ h done
  rcases updateNode_eq_ok (Edit.step_eq_ok.mpr done) with rfl
  exact .relabelled (relabelled_modifyNode g id signature outputs)

theorem hasEffect_updateWire {change : Wire → Wire} (g : Graph) (outlet : Outlet)
    (type : ∀ wire, (change wire).type = wire.type)
    (readers : ∀ wire, (change wire).readers = wire.readers) :
    g.HasEffect (updateWire outlet change) := by
  refine Edit.ends_step ?_ .unchanged
  intro _ h done
  rcases updateWire_eq_ok (Edit.step_eq_ok.mpr done) with rfl
  exact .relabelled (relabelled_modifyWire g outlet type readers)

theorem LinksKept.discard {α : Type} {run : Edit α} (kept : g.LinksKept run) :
    g.LinksKept (Functor.discard run) :=
  Stateful.ends_map.mpr kept

end Graph

namespace Operation

open TensorCompiler.Graph

variable {g : Graph}

/-- The node that a request asks a typed constructor for: its operator and its operands. -/
def application? : Operation → Option (Operator × List Outlet)
  | input .. => some (.input, [])
  | output _ value => some (.output, [value])
  | constant _ data => some (.constant data, [])
  | constantFloats _ values => some (.constant (values.flatMap Binary32.toBytes), [])
  | transpose value axes => some (.transpose axes, [value])
  | reshape value dims => some (.reshape dims, [value])
  | unary function value => some (.unary function, [value])
  | binary function first second => some (.binary function, [first, second])
  | clamp value range => some (.clamp range, [value])
  | conv2d image weights bias convolution => some (.conv2d convolution, [image, weights, bias])
  | matMul first second range => some (.matMul range, [first, second])
  | quantize value quantization dtype => some (.quantize quantization dtype, [value])
  | dequantize value quantization => some (.dequantize quantization, [value])
  | accelUpload value => some (.accelUpload, [value])
  | accelDownload value => some (.accelDownload, [value])
  | accelConv2d image weights bias convolution =>
    some (.accelConv2d convolution, [image, weights, bias])
  | addNode .. | connect .. | disconnect .. | replaceUses .. | removeUnreachable | setName ..
  | updateMarks .. | setMemoryKind .. | setNoReuse .. => none

/-- A typed constructor adds the node it is asked for, or leaves the graph alone. -/
theorem ends_application (reliable : g.Reliable) {operation : Operation} {op : Operator}
    {operands : List Outlet} (asks : operation.application? = some (op, operands)) :
    Stateful.Ends operation.edit g (fun _ h => g.Adds op operands h) (· = g) := by
  cases operation <;> cases asks
  case input name type => exact (constructs_input reliable name type).discard
  case output name value => exact Stateful.ends_map.mpr (ends_output reliable name value)
  case constant type data => exact (constructs_constant reliable type data).discard
  case constantFloats dims values => exact (constructs_constantFloats reliable dims values).discard
  case transpose value axes => exact (constructs_transpose reliable value axes).discard
  case reshape value dims => exact (constructs_reshape reliable value dims).discard
  case unary function value => exact (constructs_unary reliable function value).discard
  case binary function first second =>
    exact (constructs_binary reliable function first second).discard
  case clamp value range => exact (constructs_clamp reliable value range).discard
  case conv2d image weights bias convolution =>
    exact (constructs_conv2d reliable image weights bias convolution).discard
  case matMul first second range => exact (constructs_matMul reliable first second range).discard
  case quantize value quantization dtype =>
    exact (constructs_quantize reliable value quantization dtype).discard
  case dequantize value quantization =>
    exact (constructs_dequantize reliable value quantization).discard
  case accelUpload value => exact (constructs_accelUpload reliable value).discard
  case accelDownload value => exact (constructs_accelDownload reliable value).discard
  case accelConv2d image weights bias convolution =>
    exact (constructs_accelConv2d reliable image weights bias convolution).discard

/-- Whether a request leaves it to a typed constructor to add a node, and the links
of other nodes alone. -/
def isTyped : Operation → Bool
  | addNode .. | connect .. | disconnect .. | replaceUses .. => false
  | _ => true

theorem hasEffect (intact : g.Intact) (operation : Operation) (typed : operation.isTyped = true) :
    g.HasEffect operation.edit := by
  cases asks : operation.application? with
  | some node =>
      refine (ends_application intact.reliable asks).imp (fun _ _ adds => .added adds) ?_
      rintro _ rfl
      exact .unchanged
  | none =>
      cases operation with
      | removeUnreachable => exact Effect.swept
      | setName id name => exact hasEffect_updateNode g id (fun _ => rfl) fun _ => rfl
      | updateMarks id change => exact hasEffect_updateNode g id (fun _ => rfl) fun _ => rfl
      | setMemoryKind outlet kind => exact hasEffect_updateWire g outlet (fun _ => rfl) fun _ => rfl
      | setNoReuse outlet noReuse => exact hasEffect_updateWire g outlet (fun _ => rfl) fun _ => rfl
      | addNode | connect | disconnect | replaceUses => cases typed
      | _ => cases asks

/-- Every request but a replacement of uses keeps the links, granted or not. -/
theorem linksKept (intact : g.Intact) (operation : Operation)
    (other : ∀ old new, operation ≠ .replaceUses old new) : g.LinksKept operation.edit := by
  cases typed : operation.isTyped with
  | true =>
      exact (hasEffect intact operation typed).imp (fun _ _ effect => effect.evolvesLinked intact)
        fun _ effect => effect.evolvesLinked intact
  | false =>
      cases operation with
      | addNode op name types => exact (linksKept_addNode intact op name types).discard
      | connect inlet outlet => exact linksKept_connect intact inlet outlet
      | disconnect inlet => exact (linksKept_disconnect intact inlet).discard
      | replaceUses old new => exact absurd rfl (other old new)
      | _ => cases typed

/-- A request that is granted keeps the links, whatever it is. -/
theorem evolvesLinked_of_ok {h : Graph} (intact : g.Intact) (operation : Operation)
    (done : operation.edit g = .ok () h) : g.EvolvesLinked h := by
  by_cases replaces : ∃ old new, operation = .replaceUses old new
  · rcases replaces with ⟨old, new, rfl⟩
    exact (evolves_replaceUses intact old new).of_ok done
  · exact (linksKept intact operation fun old new same => replaces ⟨old, new, same⟩).of_ok done

theorem evolves_perform (intact : g.Intact) (operation : Operation) :
    g.Evolves (operation.perform g) := by
  apply Stateful.Ends.final
  by_cases replaces : ∃ old new, operation = .replaceUses old new
  · rcases replaces with ⟨old, new, rfl⟩
    exact (evolves_replaceUses intact old new).imp (fun _ _ evolves => evolves.toEvolves)
      fun _ evolves => evolves
  · exact (linksKept intact operation fun old new same => replaces ⟨old, new, same⟩).imp
      (fun _ _ evolves => evolves.toEvolves) fun _ evolves => evolves.toEvolves

theorem intact_of_ok {α : Type} {run : Edit α} {value : α} {h : Graph} (intact : g.Intact)
    (done : run g = .ok value h) (operation : Operation) (asks : operation.edit = discard run) :
    h.Intact := by
  have granted : operation.edit g = .ok () h := by
    rw [asks]
    exact Stateful.map_eq_ok.mpr ⟨value, done, rfl⟩
  exact (evolvesLinked_of_ok intact operation granted).intact

/-! ## Any number of requests -/

theorem performAll_append (first second : List Operation) (g : Graph) :
    performAll (first ++ second) g = performAll second (performAll first g) :=
  List.foldl_append

theorem evolves_performAll (intact : g.Intact) (operations : List Operation) :
    g.Evolves (performAll operations g) := by
  induction operations generalizing g with
  | nil => exact .refl intact
  | cons operation rest inductionHypothesis =>
      have first := evolves_perform intact operation
      exact first.trans (inductionHypothesis first.intact)

theorem intact_performAll (operations : List Operation) :
    (performAll operations .empty).Intact :=
  (evolves_performAll intact_empty operations).intact

/-- A position from which a node has been removed is never filled again. -/
theorem not_contains_of_removed (earlier between later : List Operation) {id : Nat}
    (present : (performAll earlier .empty).contains id = true)
    (removed : (performAll (earlier ++ between) .empty).contains id = false) :
    (performAll (earlier ++ between ++ later) .empty).contains id = false := by
  have reached := evolves_performAll (intact_performAll earlier) between
  rw [← performAll_append] at reached
  have last := evolves_performAll (intact_performAll (earlier ++ between)) later
  rw [← performAll_append] at last
  rcases contains_iff.mp present with ⟨node, found⟩
  have inside := Nat.lt_of_lt_of_le (lt_size_of_node? found) reached.size
  have empty : (performAll (earlier ++ between) .empty).node? id = none := by
    simpa [contains] using removed
  rw [contains, last.gone id inside empty]
  rfl

/-- Integrity.  Any requests whatever are sent to a graph that starts out empty, and
some of them may fail.  Then no node needs itself, not even through others; what an
inlet reads is a wire that exists; what a wire lists as its readers are inlets that
read it; the nodes are counted right; the declared outputs are exactly the output
nodes, in the order in which they were made and without repetition; and once a node
has been removed, its position stays empty for ever. -/
theorem integrity_of_session (operations : List Operation) :
    let g := performAll operations .empty
    (∀ id, ¬ Relation.TransGen g.Needs id id) ∧
      (∀ inlet outlet, g.producer inlet = .ok (some outlet) → ∃ wire, g.wire outlet = .ok wire) ∧
      (∀ outlet wire, g.wire outlet = .ok wire →
        ∀ inlet ∈ wire.readers, g.producer inlet = .ok (some outlet)) ∧
      g.size = g.nodeIds.length ∧
      (g.outputs.Pairwise (· < ·) ∧ ∀ id, id ∈ g.outputs ↔ g.op? id = some .output) ∧
      ∀ earlier between later, operations = earlier ++ between ++ later → ∀ id,
        (performAll earlier .empty).contains id = true →
        (performAll (earlier ++ between) .empty).contains id = false → g.contains id = false := by
  have intact := intact_performAll operations
  refine ⟨intact.acyclic, intact.sources, ?_, intact.counted, ⟨?_, fun _ => intact.mem_outputs⟩, ?_⟩
  · intro outlet wire wired inlet member
    exact intact.readers outlet inlet ⟨wire, wired, member⟩
  · rw [intact.declared]
    exact (List.pairwise_lt_range.filter _).filter _
  · rintro earlier between later rfl id present removed
    exact not_contains_of_removed earlier between later present removed

/-- Two rectifiers in a row and one beside them.  Making the readers of the input
read the second rectifier would close a cycle, which is found out when the first of
them has been cleared already. -/
def brokenOff : List Operation :=
  [.input "image" ⟨.f32, [2]⟩, .unary .relu ⟨0, 0⟩, .unary .relu ⟨1, 0⟩, .unary .relu ⟨0, 0⟩,
    .output "result" ⟨3, 0⟩, .replaceUses ⟨0, 0⟩ ⟨2, 0⟩]

/-- What breaks off halfway leaves an orphan.  The sweep after it removes the two
rectifiers in a row, and their positions stay empty whatever follows. -/
theorem integrity_brokenOff :
    (performAll brokenOff .empty).Reads ⟨3, 0⟩ ⟨0, 0⟩ ∧
      (performAll brokenOff .empty).readers ⟨0, 0⟩ = .ok [] ∧
      (performAll (brokenOff ++ [.removeUnreachable]) .empty).nodeIds = [0, 3, 4] ∧
      ∀ later, (performAll (brokenOff ++ [.removeUnreachable] ++ later) .empty).contains 1 =
        false := by
  refine ⟨by rfl, by rfl, by decide +kernel, ?_⟩
  intro later
  rcases integrity_of_session (brokenOff ++ [.removeUnreachable] ++ later) with
    ⟨_, _, _, _, _, removed⟩
  exact removed brokenOff [.removeUnreachable] later rfl 1 (by decide +kernel) (by decide +kernel)

end Operation

/-! ## Graphs that were made without fail -/

theorem Graph.Made.intact {g : Graph} (made : g.Made) : g.Intact := by
  induction made with
  | empty => exact intact_empty
  | input _ done intact => exact Operation.intact_of_ok intact done (.input _ _) rfl
  | output _ done intact => exact Operation.intact_of_ok intact done (.output _ _) rfl
  | constant _ done intact => exact Operation.intact_of_ok intact done (.constant _ _) rfl
  | constantFloats _ done intact =>
      exact Operation.intact_of_ok intact done (.constantFloats _ _) rfl
  | transpose _ done intact => exact Operation.intact_of_ok intact done (.transpose _ _) rfl
  | reshape _ done intact => exact Operation.intact_of_ok intact done (.reshape _ _) rfl
  | unary _ done intact => exact Operation.intact_of_ok intact done (.unary _ _) rfl
  | binary _ done intact => exact Operation.intact_of_ok intact done (.binary _ _ _) rfl
  | clamp _ done intact => exact Operation.intact_of_ok intact done (.clamp _ _) rfl
  | conv2d _ done intact => exact Operation.intact_of_ok intact done (.conv2d _ _ _ _) rfl
  | matMul _ done intact => exact Operation.intact_of_ok intact done (.matMul _ _ _) rfl
  | quantize _ done intact => exact Operation.intact_of_ok intact done (.quantize _ _ _) rfl
  | dequantize _ done intact => exact Operation.intact_of_ok intact done (.dequantize _ _) rfl
  | accelUpload _ done intact => exact Operation.intact_of_ok intact done (.accelUpload _) rfl
  | accelDownload _ done intact => exact Operation.intact_of_ok intact done (.accelDownload _) rfl
  | accelConv2d _ done intact =>
      exact Operation.intact_of_ok intact done (.accelConv2d _ _ _ _) rfl
  | setName _ done intact =>
      exact (Operation.evolvesLinked_of_ok intact (.setName _ _) done).intact
  | updateMarks _ done intact =>
      exact (Operation.evolvesLinked_of_ok intact (.updateMarks _ _) done).intact
  | setMemoryKind _ done intact =>
      exact (Operation.evolvesLinked_of_ok intact (.setMemoryKind _ _) done).intact
  | setNoReuse _ done intact =>
      exact (Operation.evolvesLinked_of_ok intact (.setNoReuse _ _) done).intact

end TensorCompiler
