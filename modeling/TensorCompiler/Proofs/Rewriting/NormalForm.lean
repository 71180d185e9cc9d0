import TensorCompiler.Proofs.Compilation.Stages
import TensorCompiler.Proofs.Graph.Precedence
import TensorCompiler.Proofs.Rewriting.Convergence
import TensorCompiler.Proofs.Rewriting.Termination

namespace TensorCompiler

/-!
# Normal forms

A graph that a pipeline has converged on is in a normal form.  The form is described
here by what such a graph does not contain, without reference to the rules: no
rectifier, no transpose or reshape without effect, no two of them in a row, and so on.

Rules recognize a node on its own, or a node together with the producer of its first
input if that has no other reader.  In a well-typed graph such a region always passes
the check.  So when a pass finds nothing to do, then nothing was recognized.
-/

/-- A tensor that the accelerator takes for the weights of a convolution: floats, with
a square kernel of one or three rows. -/
def TensorType.IsSmallKernel (type : TensorType) : Prop :=
  type.dtype = .f32 ∧ ∃ features channels side, (side = 1 ∨ side = 3) ∧
    type.shape = [features, channels, side, side]

theorem TensorType.isAcceleratedKernel_iff {type : TensorType} :
    Graph.isAcceleratedKernel type = true ↔ ∃ features channels side, (side = 1 ∨ side = 3) ∧
      type.shape = [features, channels, side, side] := by
  unfold Graph.isAcceleratedKernel
  split
  · next features channels rows columns shape =>
    simp only [shape, Bool.and_eq_true, Bool.or_eq_true, beq_iff_eq]
    constructor
    · rintro ⟨rfl, small⟩
      exact ⟨features, channels, rows, small, rfl⟩
    · rintro ⟨_, _, side, small, same⟩
      cases same
      exact ⟨rfl, small⟩
  · next other =>
    apply iff_of_false (by simp)
    rintro ⟨features, channels, side, -, shape⟩
    exact other _ _ _ _ shape

namespace Graph

variable {g : Graph}

/-- An outlet is read by the first input of a node and by nothing else. -/
structure Chained (g : Graph) (outlet : Outlet) (id : Nat) (first second : Operator) : Prop where
  operator : g.op? id = some second
  producer : g.op? outlet.node = some first
  reads : g.Reads ⟨id, 0⟩ outlet
  alone : g.readers outlet = .ok [⟨id, 0⟩]

/-- No superfluous move of data is left, and no activation that its producer could
take over. -/
structure IsNormal (g : Graph) : Prop where
  rectifier : ∀ id, g.op? id ≠ some (.unary .relu)
  transpose : ∀ id axes, g.op? id = some (.transpose axes) → axes ≠ List.range axes.length
  reshape : ∀ id shape outlet, g.op? id = some (.reshape shape) → g.Reads ⟨id, 0⟩ outlet →
    g.outputType ⟨id, 0⟩ ≠ g.outputType outlet
  transposes : ∀ outlet id first second,
    ¬ g.Chained outlet id (.transpose first) (.transpose second)
  reshapes : ∀ outlet id first second, ¬ g.Chained outlet id (.reshape first) (.reshape second)
  clamp : ∀ outlet id op range, g.Chained outlet id op (.clamp range) →
    op.opcode = .conv2d ∨ op.opcode = .matMul →
    ∃ kept node, (kept = outlet.node ∨ kept = id) ∧ g.node? kept = some node ∧
      node.marks.skipFusion = true
  quantize : ∀ outlet id source previous quantization dtype type,
    g.Chained outlet id (.dequantize previous) (.quantize quantization dtype) →
    quantization.agrees previous = true → g.Reads ⟨outlet.node, 0⟩ source →
    g.outputType source = .ok type → type.dtype ≠ dtype

/-- The second input of a node reads constant weights that suit the accelerator. -/
def HasSmallKernel (g : Graph) (id : Nat) : Prop :=
  ∃ weights data type, g.Reads ⟨id, 1⟩ weights ∧ g.op? weights.node = some (.constant data) ∧
    g.outputType weights = .ok type ∧ type.IsSmallKernel

/-- Nothing that the accelerator could do is left to the host, and nothing is copied out
of its memory only to be copied back. -/
structure IsOffloaded (g : Graph) : Prop where
  copies : ∀ outlet id source, g.Chained outlet id .accelDownload .accelUpload →
    g.Reads ⟨outlet.node, 0⟩ source → g.memoryKind source ≠ .ok .accelerator
  convolutions : ∀ id node convolution, g.node? id = some node → node.op = .conv2d convolution →
    node.marks.quantize = true → ¬ g.HasSmallKernel id

theorem Chained.producerOf {outlet : Outlet} {id : Nat} {first second : Operator}
    (chained : g.Chained outlet id first second) : g.producerOf id 0 = some (outlet, first) :=
  producerOf_eq_some.mpr ⟨chained.reads, chained.producer⟩

theorem Chained.hasOneReader {outlet : Outlet} {id : Nat} {first second : Operator}
    (chained : g.Chained outlet id first second) : g.hasOneReader outlet = true := by
  simp [Graph.hasOneReader, chained.alone]

theorem Intact.exists_producerOf (intact : g.Intact) {id index : Nat} {outlet : Outlet}
    (reads : g.Reads ⟨id, index⟩ outlet) : ∃ op, g.producerOf id index = some (outlet, op) := by
  obtain ⟨node, found⟩ := intact.contains_of_needs reads.needs
  exact ⟨node.op, producerOf_eq_some.mpr ⟨reads, by rw [op?, found, Option.map_some]⟩⟩

/-! ## Regions that pass the check -/

/-- In a swept graph every node has its place in the dependency order. -/
theorem Intact.mem_postorder {id : Nat} (intact : g.Intact) (swept : g.swept = g)
    (present : g.contains id = true) : id ∈ g.postorder := by
  rcases contains_iff.mp present with ⟨node, found⟩
  rw [← swept] at found
  exact mem_postorder_of_reachable intact.toFaithful intact.acyclic
    (fun _ => intact.contains_of_output) (node?_swept.mp found).1

theorem index_lt_of_reads {id index : Nat} {node : Node} {outlet : Outlet}
    (found : g.node? id = some node) (reads : g.Reads ⟨id, index⟩ outlet) :
    index < node.inputs.length := by
  obtain ⟨again, foundAgain, entry⟩ := reads_iff.mp reads
  obtain rfl : node = again := Option.some.inj (found.symm.trans foundAgain)
  exact (List.getElem?_eq_some_iff.mp entry).1

/-- Each input of a well-typed node reads something. -/
theorem WellTyped.exists_reads {id index : Nat} {node : Node} (typed : g.WellTyped node)
    (found : g.node? id = some node) (inside : index < node.inputs.length) :
    ∃ outlet, g.Reads ⟨id, index⟩ outlet ∧ node.inputs[index]? = some (some outlet) := by
  obtain ⟨sources, types, connected, -, -⟩ := typed
  rw [connected, List.length_map] at inside
  have entry : node.inputs[index]? = some (some sources[index]) := by
    rw [connected, List.getElem?_map, List.getElem?_eq_getElem inside, Option.map_some]
  exact ⟨sources[index], reads_iff.mpr ⟨node, found, entry⟩, entry⟩

/-- A well-typed node has no result but its first. -/
theorem WellTyped.index_eq_zero {index : Nat} {node : Node} {wire : Wire}
    (typed : g.WellTyped node) (entry : node.outputs[index]? = some wire) : index = 0 := by
  obtain ⟨sources, types, -, -, accepted⟩ := typed
  have result : (node.outputs.map Wire.type)[index]? = some wire.type := by
    rw [List.getElem?_map, entry, Option.map_some]
  exact (accepted.eq_singleton result).1

/-- A well-typed node with a result is no output. -/
theorem WellTyped.op_ne_output {index : Nat} {node : Node} {wire : Wire}
    (typed : g.WellTyped node) (entry : node.outputs[index]? = some wire) :
    node.op ≠ .output := by
  intro isOutput
  rcases typed with ⟨_, _, -, -, accepted⟩
  have none := accepted.counts.2
  rw [isOutput, List.length_map] at none
  rw [List.length_eq_zero_iff.mp none] at entry
  cases entry

/-- A well-typed node with one input reads nothing but what this input reads. -/
theorem WellTyped.inputs_eq_singleton {node : Node} {outlet : Outlet} (typed : g.WellTyped node)
    (one : node.op.inputCount = 1) (entry : node.inputs[0]? = some (some outlet)) :
    node.inputs = [some outlet] := by
  rcases typed with ⟨sources, _, connected, sourcesTyped, accepted⟩
  have single : sources.length = 1 := by rw [sourcesTyped.length_eq, accepted.counts.1, one]
  rcases List.length_eq_one_iff.mp single with ⟨only, rfl⟩
  rw [connected] at entry
  rw [connected, Option.some.inj (Option.some.inj entry), List.map_singleton]

end Graph

namespace Region

variable {g : Graph} {region : Region}

/-- The inputs of a node are listed as they should be if each of them reads something,
and is listed exactly if it reads from outside. -/
theorem inputsListed_of_reads {id : Nat} {node : Node} (found : g.node? id = some node)
    (typed : g.WellTyped node)
    (exactly : ∀ index outlet, g.Reads ⟨id, index⟩ outlet →
      (⟨id, index⟩ ∈ region.inputs ↔ outlet.node ∉ region.nodes)) :
    region.inputsListed id node = true := by
  apply List.all_eq_true.mpr
  rintro ⟨source, index⟩ member
  have entry : node.inputs[index]? = some source := List.mk_mem_zipIdx_iff_getElem?.mp member
  have inside : index < node.inputs.length := (List.getElem?_eq_some_iff.mp entry).1
  obtain ⟨outlet, reads, same⟩ := typed.exists_reads found inside
  obtain rfl : source = some outlet := Option.some.inj (entry.symm.trans same)
  have listed := exactly index outlet reads
  by_cases outside : outlet.node ∈ region.nodes
  · simp [outside, listed]
  · simp [outside, listed]

theorem nodup_inlets (id count : Nat) : ((List.range count).map (Inlet.mk id)).Nodup :=
  List.nodup_range.map fun _ _ same => (Inlet.mk.inj same).2

theorem mem_inlets {id count : Nat} {inlet : Inlet} :
    inlet ∈ (List.range count).map (Inlet.mk id) ↔ inlet.node = id ∧ inlet.index < count := by
  simp only [List.mem_map, List.mem_range]
  constructor
  · rintro ⟨index, inside, rfl⟩
    exact ⟨rfl, inside⟩
  · rintro ⟨rfl, inside⟩
    exact ⟨inlet.index, inside, rfl⟩

/-- The results of a node are accounted for if the region gives its only one away. -/
theorem outputsListed_of_mem {id : Nat} {node : Node} (typed : g.WellTyped node)
    (listed : ⟨id, 0⟩ ∈ region.outputs) : region.outputsListed id node = true := by
  apply List.all_eq_true.mpr
  rintro ⟨wire, index⟩ position
  have zero := typed.index_eq_zero (List.mk_mem_zipIdx_iff_getElem?.mp position)
  simp [zero, listed]

/-- The results of a node are accounted for if only nodes of the region read its only
one. -/
theorem outputsListed_of_readers {id index : Nat} {node : Node} {wire : Wire}
    (typed : g.WellTyped node) (entry : node.outputs[index]? = some wire)
    (inside : ∀ reader ∈ wire.readers, reader.node ∈ region.nodes) :
    region.outputsListed id node = true := by
  apply List.all_eq_true.mpr
  rintro ⟨here, position⟩ member
  have hereEntry : node.outputs[position]? = some here :=
    List.mk_mem_zipIdx_iff_getElem?.mp member
  rw [typed.index_eq_zero hereEntry, ← typed.index_eq_zero entry, entry] at hereEntry
  rcases Option.some.inj hereEntry with rfl
  simpa using Or.inr inside

/-- A region can be replaced if it is entered through one of its nodes, which all the
others need, and left through one result. -/
theorem isReplaceable_of_entrance {entrance last : Nat} {node : Node} (intact : g.Intact)
    (typed : g.Typed) (found : g.node? entrance = some node) (unique : region.nodes.Nodup)
    (inputs : region.inputs = (List.range node.inputs.length).map (Inlet.mk entrance))
    (outputs : region.outputs = [⟨last, 0⟩]) (exit : last ∈ region.nodes)
    (admitted : ∀ id ∈ region.nodes, ∃ node, g.node? id = some node ∧ node.op ≠ .output ∧
      region.outputsListed id node = true)
    (needed : ∀ id ∈ region.nodes, g.Depends id entrance)
    (enclosed : ∀ id ∈ region.nodes, id ≠ entrance → ∀ index source,
      g.Reads ⟨id, index⟩ source → source.node ∈ region.nodes) :
    region.isReplaceable g = true := by
  -- A path from what the entrance reads back into the region would close a cycle.
  have before : ∀ index source, g.Reads ⟨entrance, index⟩ source →
      ∀ id ∈ region.nodes, ¬ g.Depends source.node id := by
    intro index source reads id member path
    exact intact.acyclic.not_depends_of_reads reads (path.trans (needed id member))
  have bounded : region.Bounded g := by
    constructor
    · exact List.ne_nil_of_mem exit
    · exact unique
    · simp [outputs]
    · simp [outputs, exit]
    · exact admitted
    · rintro ⟨reader, index⟩ member
      rcases mem_inlets.mp (inputs ▸ member) with ⟨rfl, inside⟩
      rcases (typed reader node found).exists_reads found inside with ⟨source, reads, -⟩
      exact ⟨source, reads, before index source reads⟩
  apply isReplaceable_of_bounded bounded (inputs ▸ nodup_inlets _ _)
  intro id member here foundHere
  apply inputsListed_of_reads foundHere (typed id here foundHere)
  intro index source reads
  rw [inputs, mem_inlets]
  by_cases first : id = entrance
  · subst first
    rcases Option.some.inj (found.symm.trans foundHere) with rfl
    apply iff_of_true ⟨rfl, Graph.index_lt_of_reads found reads⟩
    exact fun inRegion => before index source reads _ inRegion .refl
  · apply iff_of_false
    · exact fun listed => first listed.1
    · exact fun outside => outside (enclosed id member first index source reads)

/-- A node with one result can be replaced on its own. -/
theorem isReplaceable_single {id : Nat} {op : Operator} (intact : g.Intact) (typed : g.Typed)
    (operator : g.op? id = some op) (notOutput : op ≠ .output)
    (recognized : single g id = some region) : region.isReplaceable g = true := by
  rcases single_eq_some recognized with ⟨node, found, nodes, inputs, outputs⟩
  rw [Graph.op?, found] at operator
  rcases Option.some.inj operator with rfl
  have members : ∀ other, other ∈ region.nodes ↔ other = id := by
    intro other
    rw [nodes, List.mem_singleton]
  apply isReplaceable_of_entrance intact typed found (nodes ▸ List.nodup_singleton id) inputs
    outputs ((members id).mpr rfl)
  · intro other member
    rcases (members other).mp member with rfl
    exact ⟨node, found, notOutput,
      outputsListed_of_mem (typed other node found) (outputs ▸ List.mem_singleton_self _)⟩
  · intro other member
    rcases (members other).mp member with rfl
    exact .refl
  · intro other member apart
    exact absurd ((members other).mp member) apart

/-- A node with one operand can be replaced together with the producer of that operand,
if nothing else reads it. -/
theorem isReplaceable_chain {id : Nat} {outlet : Outlet} {first second : Operator}
    (intact : g.Intact) (typed : g.Typed) (chained : g.Chained outlet id first second)
    (one : second.inputCount = 1) (notOutput : second ≠ .output)
    (recognized : chain g outlet.node id = some region) : region.isReplaceable g = true := by
  rcases Graph.reads_iff.mp chained.reads with ⟨node, found, entry⟩
  have operator := chained.operator
  rw [Graph.op?, found] at operator
  rcases Option.some.inj operator with rfl
  have connected := (typed id node found).inputs_eq_singleton one entry
  rcases chain_eq_some recognized found connected with
    ⟨producer, producerFound, nodes, inputs, outputs⟩
  rcases Graph.readers_eq_ok.mp chained.alone with ⟨wire, wired, readers⟩
  rcases Graph.wire_eq_ok.mp wired with ⟨again, foundAgain, result⟩
  rcases Option.some.inj (producerFound.symm.trans foundAgain) with rfl
  have producerTyped := typed outlet.node producer producerFound
  have apart : outlet.node ≠ id := fun same =>
    intact.acyclic.not_depends_of_reads chained.reads (same ▸ .refl)
  have members : ∀ other, other ∈ region.nodes ↔ other = outlet.node ∨ other = id := by
    intro other
    rw [nodes, List.mem_cons, List.mem_singleton]
  apply isReplaceable_of_entrance intact typed producerFound (by simp [nodes, apart]) inputs
    outputs ((members id).mpr (Or.inr rfl))
  · intro other member
    rcases (members other).mp member with rfl | rfl
    · exact ⟨producer, producerFound, producerTyped.op_ne_output result,
        outputsListed_of_readers producerTyped result (by simp [readers, nodes])⟩
    · exact ⟨node, found, notOutput,
        outputsListed_of_mem (typed other node found) (outputs ▸ List.mem_singleton_self _)⟩
  · intro other member
    rcases (members other).mp member with rfl | rfl
    · exact .refl
    · exact .single chained.reads.needs
  · intro other member notFirst index source reads
    rcases ((members other).mp member).resolve_left notFirst with rfl
    have inside := Graph.index_lt_of_reads found reads
    rw [connected] at inside
    rcases Nat.lt_one_iff.mp inside with rfl
    rcases Graph.reads_unique reads chained.reads with rfl
    exact (members _).mpr (Or.inl rfl)

end Region

/-! ## Rules that find nothing -/

namespace Rule

variable {g : Graph} {rule : Rule}

/-- No region that the rule recognizes in the graph can be replaced. -/
def Exhausted (rule : Rule) (g : Graph) : Prop :=
  ∀ id op region, g.op? id = some op → op.opcode ∈ rule.anchors →
    rule.recognize g id = some region → region.isReplaceable g = false

theorem exhausted_of_idle {pass : Pass} (intact : g.Intact) (swept : g.swept = g)
    (idle : pass.Idle g) (member : rule ∈ pass.rules) : rule.Exhausted g := by
  intro id op region operator anchored recognized
  rw [← swept] at idle
  have nothing := Pass.idle_swept_iff.mp idle
  rw [swept] at nothing
  have visited : id ∈ g.postorder := intact.mem_postorder swept (Graph.contains_of_op? operator)
  apply eq_false_of_ne_true
  intro checked
  exact Pass.not_offers_of_tryNodes nothing visited
    ⟨member, operator, anchored, recognized, checked⟩

theorem Exhausted.recognize_ne_single {id : Nat} {op : Operator} (exhausted : rule.Exhausted g)
    (intact : g.Intact) (typed : g.Typed) (operator : g.op? id = some op)
    (anchored : op.opcode ∈ rule.anchors) (notOutput : op ≠ .output) :
    rule.recognize g id ≠ Region.single g id := by
  intro recognized
  obtain ⟨node, found, -⟩ := Option.map_eq_some_iff.mp operator
  obtain ⟨region, single⟩ : ∃ region, Region.single g id = some region := by
    simp [Region.single, found]
  have checked := Region.isReplaceable_single intact typed operator notOutput single
  rw [exhausted id op region operator anchored (recognized.trans single)] at checked
  cases checked

theorem Exhausted.recognize_ne_chain {id : Nat} {outlet : Outlet} {first second : Operator}
    (exhausted : rule.Exhausted g) (intact : g.Intact) (typed : g.Typed)
    (chained : g.Chained outlet id first second) (anchored : second.opcode ∈ rule.anchors)
    (one : second.inputCount = 1) (notOutput : second ≠ .output) :
    rule.recognize g id ≠ Region.chain g outlet.node id := by
  intro recognized
  obtain ⟨node, found, -⟩ := Option.map_eq_some_iff.mp chained.operator
  obtain ⟨producer, producerFound, -⟩ := Option.map_eq_some_iff.mp chained.producer
  obtain ⟨region, chain⟩ : ∃ region, Region.chain g outlet.node id = some region := by
    simp [Region.chain, found, producerFound]
  have checked := Region.isReplaceable_chain intact typed chained one notOutput chain
  rw [exhausted id second region chained.operator anchored (recognized.trans chain)] at checked
  cases checked

section

variable (intact : g.Intact) (typed : g.Typed)

include intact typed

theorem Exhausted.rectifier (exhausted : lowerRelu.Exhausted g) (id : Nat) :
    g.op? id ≠ some (.unary .relu) := by
  intro operator
  apply exhausted.recognize_ne_single intact typed operator List.mem_cons_self (by decide)
  exact if_pos operator

theorem Exhausted.transpose (exhausted : foldIdentityTranspose.Exhausted g) {id : Nat}
    {axes : List Nat} (operator : g.op? id = some (.transpose axes)) :
    axes ≠ List.range axes.length := by
  intro identity
  apply exhausted.recognize_ne_single intact typed operator List.mem_cons_self (by simp)
  simp only [foldIdentityTranspose, operator]
  exact if_pos (beq_iff_eq.mpr identity)

theorem Exhausted.reshape (exhausted : foldIdentityReshape.Exhausted g) {id : Nat}
    {shape : List Nat} {outlet : Outlet} (operator : g.op? id = some (.reshape shape))
    (reads : g.Reads ⟨id, 0⟩ outlet) : g.outputType ⟨id, 0⟩ ≠ g.outputType outlet := by
  intro same
  obtain ⟨wire, wired⟩ := intact.sources _ _ reads
  have outletTyped : g.outputType outlet = .ok wire.type :=
    Graph.outputType_eq_ok.mpr ⟨wire, wired, rfl⟩
  obtain ⟨op, produced⟩ := intact.exists_producerOf reads
  apply exhausted.recognize_ne_single intact typed operator List.mem_cons_self (by simp)
  simp [foldIdentityReshape, operator, produced, sameTypeAcross, same, outletTyped]

theorem Exhausted.transposes (exhausted : foldTwoTransposes.Exhausted g) (outlet : Outlet)
    (id : Nat) (first second : List Nat) :
    ¬ g.Chained outlet id (.transpose first) (.transpose second) := by
  intro chained
  apply exhausted.recognize_ne_chain intact typed chained List.mem_cons_self rfl (by simp)
  simp [foldTwoTransposes, chained.producerOf, chained.hasOneReader]

theorem Exhausted.reshapes (exhausted : foldTwoReshapes.Exhausted g) (outlet : Outlet)
    (id : Nat) (first second : List Nat) :
    ¬ g.Chained outlet id (.reshape first) (.reshape second) := by
  intro chained
  apply exhausted.recognize_ne_chain intact typed chained List.mem_cons_self rfl (by simp)
  simp [foldTwoReshapes, chained.producerOf, chained.hasOneReader]

theorem Exhausted.clamp (exhausted : fuseClamp.Exhausted g) {outlet : Outlet} {id : Nat}
    {op : Operator} {range : ClampRange} (chained : g.Chained outlet id op (.clamp range))
    (fusible : op.opcode = .conv2d ∨ op.opcode = .matMul) :
    ∃ kept node, (kept = outlet.node ∨ kept = id) ∧ g.node? kept = some node ∧
      node.marks.skipFusion = true := by
  by_contra none
  have fused : ∀ kept, kept = outlet.node ∨ kept = id → g.contains kept = true →
      skipsFusion g kept = false := by
    intro kept either present
    obtain ⟨node, found⟩ := Graph.contains_iff.mp present
    simp only [skipsFusion, found]
    apply eq_false_of_ne_true
    exact fun skips => none ⟨kept, node, either, found, skips⟩
  have producerFused :=
    fused outlet.node (Or.inl rfl) (Graph.contains_of_op? chained.producer)
  have clampFused := fused id (Or.inr rfl) (Graph.contains_of_op? chained.operator)
  have ends : endsInClamp op = true := by simpa [endsInClamp] using fusible
  apply exhausted.recognize_ne_chain intact typed chained List.mem_cons_self rfl (by simp)
  simp [fuseClamp, chained.producerOf, chained.hasOneReader, ends, producerFused, clampFused]

theorem Exhausted.quantize (exhausted : foldQuantizeDequantize.Exhausted g)
    {outlet source : Outlet} {id : Nat} {previous quantization : Quantization} {dtype : DataType}
    {type : TensorType}
    (chained : g.Chained outlet id (.dequantize previous) (.quantize quantization dtype))
    (agrees : quantization.agrees previous = true) (reads : g.Reads ⟨outlet.node, 0⟩ source)
    (sourceTyped : g.outputType source = .ok type) : type.dtype ≠ dtype := by
  intro same
  obtain ⟨op, produced⟩ := intact.exists_producerOf reads
  apply exhausted.recognize_ne_chain intact typed chained List.mem_cons_self rfl (by simp)
  simp [foldQuantizeDequantize, chained.operator, chained.producerOf, chained.hasOneReader,
    produced, agrees, hasElements, sourceTyped, same]

theorem Exhausted.copies (exhausted : foldUploadDownload.Exhausted g) {outlet source : Outlet}
    {id : Nat} (chained : g.Chained outlet id .accelDownload .accelUpload)
    (reads : g.Reads ⟨outlet.node, 0⟩ source) : g.memoryKind source ≠ .ok .accelerator := by
  intro onAccelerator
  obtain ⟨op, produced⟩ := intact.exists_producerOf reads
  apply exhausted.recognize_ne_chain intact typed chained List.mem_cons_self rfl (by simp)
  simp [foldUploadDownload, chained.producerOf, chained.hasOneReader, produced, isOnAccelerator,
    onAccelerator]

theorem Exhausted.convolutions {quantization : Quantization}
    (exhausted : (lowerConv2dToAccel quantization).Exhausted g) {id : Nat} {node : Node}
    {convolution : Convolution} (found : g.node? id = some node)
    (isConvolution : node.op = .conv2d convolution) (marked : node.marks.quantize = true) :
    ¬ g.HasSmallKernel id := by
  rintro ⟨weights, data, type, reads, constant, weightsTyped, small⟩
  have operator : g.op? id = some (.conv2d convolution) := by
    rw [Graph.op?, found, Option.map_some, isConvolution]
  have suited : hasAcceleratedWeights g weights = true :=
    hasAcceleratedWeights_iff.mpr
      ⟨type, weightsTyped, small.1, TensorType.isAcceleratedKernel_iff.mpr small.2⟩
  have produced := Graph.producerOf_eq_some.mpr ⟨reads, constant⟩
  apply exhausted.recognize_ne_single intact typed operator List.mem_cons_self (by simp)
  simp [lowerConv2dToAccel, isMarkedQuantize, found, marked, produced, suited]

end

end Rule

/-! ## What a converged pipeline leaves -/

namespace Graph

variable {g : Graph}

theorem isNormal_of_exhausted (intact : g.Intact) (typed : g.Typed)
    (activations : Rule.lowerRelu.Exhausted g) (folds : ∀ rule ∈ Target.foldRules, rule.Exhausted g)
    (fusions : Rule.fuseClamp.Exhausted g) : g.IsNormal where
  rectifier := activations.rectifier intact typed
  transpose id axes operator :=
    (folds .foldIdentityTranspose (by simp [Target.foldRules])).transpose intact typed operator
  reshape id shape outlet operator reads :=
    (folds .foldIdentityReshape (by simp [Target.foldRules])).reshape intact typed operator reads
  transposes := (folds .foldTwoTransposes (by simp [Target.foldRules])).transposes intact typed
  reshapes := (folds .foldTwoReshapes (by simp [Target.foldRules])).reshapes intact typed
  clamp outlet id op range chained fusible := fusions.clamp intact typed chained fusible
  quantize outlet id source previous quantization dtype type chained agrees reads sourceTyped :=
    (folds .foldQuantizeDequantize (by simp [Target.foldRules])).quantize intact typed chained
      agrees reads sourceTyped

end Graph

theorem Pass.Rewrites.sustains {pass : Pass} {g h : Graph} (rewrites : pass.Rewrites g h)
    (builtIn : pass.IsBuiltIn) (intact : g.Intact) : g.Sustains h := by
  cases rewrites with
  | @intro rule region id op journal after offers applied =>
      have bounded := Region.bounded_of_isReplaceable offers.checked
      have sustains : g.Sustains after.graph :=
        (Rule.ends_apply (builtIn rule offers.member).careful intact offers.operator
          offers.anchored offers.recognized bounded).of_ok applied
      exact sustains.trans sustains.intact.sustains_swept

theorem Pipeline.sustains_of_run {pipeline : Pipeline} {g : Graph} {journal : Journal}
    {after : Workbench} {stats : PipelineStats}
    (builtIn : ∀ pass ∈ pipeline.passes, pass.IsBuiltIn) (intact : g.Intact)
    (done : pipeline.run ⟨g, journal⟩ = .ok stats after) : g.Sustains after.graph := by
  apply holds_of_run (g.Sustains ·) _ _ (.refl intact) done
  · intro pass member h k sustains rewrites
    exact sustains.trans (rewrites.sustains (builtIn pass member) sustains.intact)
  · intro h sustains
    exact sustains.trans sustains.intact.sustains_swept

namespace Target

theorem isBuiltIn_of_known {target : Target}
    (known : target = .cpu ∨
      ∃ scratchpad quantization, target = .accelerated scratchpad quantization) :
    ∀ pass ∈ target.passes, pass.IsBuiltIn := by
  rcases known with rfl | ⟨scratchpad, quantization, rfl⟩
  · exact isBuiltIn_cpu
  · exact isBuiltIn_accelerated scratchpad quantization

theorem isNormal_of_idle {target : Target} {g : Graph} (known : target = .cpu ∨
      ∃ scratchpad quantization, target = .accelerated scratchpad quantization)
    (intact : g.Intact) (typed : g.Typed) (swept : g.swept = g)
    (idle : ∀ pass ∈ target.passes, pass.Idle g) : g.IsNormal := by
  have exhausted : ∀ pass ∈ target.passes, ∀ rule ∈ pass.rules, rule.Exhausted g :=
    fun pass listed rule member => Rule.exhausted_of_idle intact swept (idle pass listed) member
  rcases known with rfl | ⟨scratchpad, quantization, rfl⟩
  · apply Graph.isNormal_of_exhausted intact typed
    · exact exhausted legalize (by simp [cpu]) _ (by simp [legalize])
    · exact fun rule member => exhausted ⟨"fold", foldRules⟩ (by simp [cpu]) rule member
    · exact exhausted fuse (by simp [cpu]) _ (by simp [fuse])
  · apply Graph.isNormal_of_exhausted intact typed
    · exact exhausted legalize (by simp [accelerated]) _ (by simp [legalize])
    · exact fun rule member => exhausted ⟨"fold", foldRules ++ [Rule.foldUploadDownload]⟩
        (by simp [accelerated]) rule (List.mem_append_left _ member)
    · exact exhausted fuse (by simp [accelerated]) _ (by simp [fuse])

theorem isOffloaded_of_idle {g : Graph} {scratchpad : Nat} {quantization : Quantization}
    (intact : g.Intact) (typed : g.Typed) (swept : g.swept = g)
    (idle : ∀ pass ∈ (accelerated scratchpad quantization).passes, pass.Idle g) :
    g.IsOffloaded := by
  have copies : Rule.foldUploadDownload.Exhausted g :=
    Rule.exhausted_of_idle intact swept
      (idle ⟨"fold", foldRules ++ [Rule.foldUploadDownload]⟩ (by simp [accelerated])) (by simp)
  have lowerings : (Rule.lowerConv2dToAccel quantization).Exhausted g :=
    Rule.exhausted_of_idle intact swept
      (idle ⟨"lower", [Rule.lowerConv2dToAccel quantization]⟩ (by simp [accelerated])) (by simp)
  constructor
  · intro outlet id source chained reads
    exact copies.copies intact typed chained reads
  · intro id node convolution found isConvolution marked
    exact lowerings.convolutions intact typed found isConvolution marked

/-- What compiling a well-typed graph leaves when its passes have converged: a graph in
normal form, which for the accelerator is also offloaded, and on which every pass of the
target is idle. -/
theorem compile_normalizes {target : Target} {options : CompileOptions} {g : Graph}
    {journal : Journal} {compiled : Compiled} {after : Workbench}
    (known : target = .cpu ∨
      ∃ scratchpad quantization, target = .accelerated scratchpad quantization)
    (intact : g.Intact) (typed : g.Typed)
    (done : compile target options ⟨g, journal⟩ = .ok compiled after)
    (converged : compiled.stats.converged = true) :
    after.graph.IsNormal ∧
      (∀ scratchpad quantization, target = .accelerated scratchpad quantization →
        after.graph.IsOffloaded) ∧
      ∀ pass ∈ target.passes, pass.Idle after.graph := by
  obtain ⟨between, ran, graph⟩ := run_of_compile done
  have sustains := Pipeline.sustains_of_run (isBuiltIn_of_known known) intact.swept ran
  have stillTyped := sustains.typed (intact.sustains_swept.typed typed)
  have swept := Pipeline.swept_of_run g.swept_swept ran
  have idle : ∀ pass ∈ target.passes, pass.Idle between.graph :=
    Pipeline.idle_of_converged g.swept_swept ran converged
  rw [graph]
  refine ⟨isNormal_of_idle known sustains.intact stillTyped swept idle, ?_, idle⟩
  rintro scratchpad quantization rfl
  exact isOffloaded_of_idle sustains.intact stillTyped swept idle

/-- Compiling a marked convolution for the accelerator converges, and neither the
convolution nor the rectifier after it is left. -/
theorem compile_normalizes_convolveMarked :
    ∃ g compiled after, convolveMarked .empty = .ok 5 g ∧
      compile (accelerated defaultScratchpad defaultQuantization) {} ⟨g, #[]⟩ =
        .ok compiled after ∧
      compiled.stats.converged = true ∧ after.graph.IsNormal ∧ after.graph.IsOffloaded := by
  have built : convolveMarked .empty = .ok 5 (Stateful.final convolveMarked .empty) := rfl
  have converges : (match compile (accelerated defaultScratchpad defaultQuantization) {}
      ⟨Stateful.final convolveMarked .empty, #[]⟩ with
    | .ok compiled _ => compiled.stats.converged
    | .error _ _ => false) = true := by decide +kernel
  generalize Stateful.final convolveMarked .empty = g at built converges
  have made := made_convolveMarked built
  cases done : compile (accelerated defaultScratchpad defaultQuantization) {} ⟨g, #[]⟩ with
  | error failure after =>
      rw [done] at converges
      cases converges
  | ok compiled after =>
      rw [done] at converges
      obtain ⟨normal, offloaded, -⟩ := compile_normalizes (Or.inr ⟨_, _, rfl⟩) made.intact
        made.valid.typed done converges
      exact ⟨g, compiled, after, built, done, converges, normal, offloaded _ _ rfl⟩

end Target
end TensorCompiler
