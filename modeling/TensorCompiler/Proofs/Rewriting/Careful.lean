import TensorCompiler.Proofs.Rewriting.Beside
import TensorCompiler.Proofs.Rewriting.Fitting

namespace TensorCompiler

/-!
# Careful rules

A rule is careful if all it ever builds stands beside the region that it has
recognized, and if what it hands over does not depend on the region.  No types are
needed for this, so a rule is careful on every intact graph, and up to the point where
it fails.

A careful rule also builds less than it replaces.  Less is measured by weights: a
convolution may become six other operators and a rectifier another one, so they weigh
more than the other operators, which only ever become fewer.
-/

/-- How many applications of rules an operator can give rise to. -/
def Operator.weight : Operator → Nat
  | .conv2d _ => 7
  | .unary .relu => 2
  | _ => 1

theorem Operator.weight_pos (op : Operator) : 0 < op.weight := by
  unfold weight
  split <;> decide

theorem Operator.weight_le (op : Operator) : op.weight ≤ 7 := by
  unfold weight
  split <;> decide

namespace Graph

/-- The weight of the operator at a position. -/
def weightAt (g : Graph) (id : Nat) : Nat :=
  (g.op? id).elim 0 Operator.weight

/-- The weight of the operators at some positions. -/
def weightOf (g : Graph) (ids : List Nat) : Nat :=
  (ids.map g.weightAt).sum

theorem weightAt_of_op? {g : Graph} {id : Nat} {op : Operator} (operator : g.op? id = some op) :
    g.weightAt id = op.weight := by
  rw [weightAt, operator]
  rfl

end Graph

theorem entryAt_eq_ok {α : Type} {entries : List α} {index : Nat} {entry : α} :
    entryAt entries index = .ok entry ↔ entries[index]? = some entry := by
  unfold entryAt
  cases entries[index]? with
  | none => exact iff_of_false Checked.abort_ne_ok (Option.some_ne_none entry).symm
  | some found => rw [Except.ok.injEq, Option.some.injEq]

theorem mem_of_entryAt {α : Type} {entries : List α} {index : Nat} {entry : α}
    (found : entryAt entries index = .ok entry) : entry ∈ entries :=
  List.mem_of_getElem? (entryAt_eq_ok.mp found)

namespace Region

variable {g : Graph} {region : Region} {sources : List Outlet}

theorem Bounded.lt_size (bounded : region.Bounded g) : ∀ id ∈ region.nodes, id < g.slots.size := by
  intro id member
  rcases bounded.admitted id member with ⟨node, found, _⟩
  exact Graph.lt_size_of_node? found

/-- What a region reads may be used for its replacement. -/
theorem Bounded.permitted (bounded : region.Bounded g) (faithful : g.Faithful)
    (captured : region.inputs.mapM g.connectedProducer = .ok sources) :
    ∀ source ∈ sources, g.Permitted region.nodes source := by
  intro source member
  rcases Checked.exists_of_mem_mapM captured member with ⟨inlet, listed, found⟩
  have reads := Graph.connectedProducer_eq_ok.mp found
  rcases bounded.entering inlet listed with ⟨outlet, readsOutlet, independent⟩
  rcases Graph.reads_unique readsOutlet reads with rfl
  rcases faithful.sources inlet outlet reads with ⟨wire, wired⟩
  rcases Graph.wire_eq_ok.mp wired with ⟨node, present, _⟩
  refine Or.inr ⟨Graph.lt_size_of_node? present, ?_⟩
  rintro ⟨id, inRegion, depends⟩
  exact independent id inRegion depends

theorem nodes_single {id : Nat} (recognized : single g id = some region) : region.nodes = [id] := by
  rcases single_eq_some recognized with ⟨_, _, nodes, _⟩
  exact nodes

theorem weightOf_single {id : Nat} {op : Operator} (recognized : single g id = some region)
    (operator : g.op? id = some op) : g.weightOf region.nodes = op.weight := by
  rw [nodes_single recognized]
  simp [Graph.weightOf, Graph.weightAt_of_op? operator]

theorem nodes_chain {first second : Nat} (recognized : chain g first second = some region) :
    region.nodes = [first, second] := by
  simp only [chain, Option.bind_eq_bind, Option.bind_eq_some_iff] at recognized
  rcases recognized with ⟨_, _, _, _, same⟩
  rcases Option.some.inj same with rfl
  rfl

theorem weightOf_chain {id : Nat} {outlet : Outlet} {first op : Operator}
    (recognized : chain g outlet.node id = some region)
    (produced : g.producerOf id 0 = some (outlet, first)) (operator : g.op? id = some op) :
    g.weightOf region.nodes = first.weight + op.weight := by
  have firstOperator := (Graph.producerOf_eq_some.mp produced).2
  rw [nodes_chain recognized]
  simp [Graph.weightOf, Graph.weightAt_of_op? firstOperator, Graph.weightAt_of_op? operator]

end Region

namespace Rule

open TensorCompiler.Graph Stateful

/-- What a careful rule has done when it succeeds: the replacements stand beside the
region, do not depend on it and weigh less. -/
structure Lightens (g : Graph) (region : Region) (replacements : List Outlet) (built : Graph) :
    Prop where
  beside : ∃ added, g.Beside region.nodes added built ∧
    (added.map Operator.weight).sum < g.weightOf region.nodes
  permitted : ∀ new ∈ replacements, g.Permitted region.nodes new

/-- Whatever region of an intact graph a rule recognizes, the rule builds beside it
only, and less than the region. -/
def Careful (rule : Rule) : Prop :=
  ∀ {g : Graph} {id : Nat} {op : Operator} {region : Region} {sources : List Outlet},
    g.Intact → g.op? id = some op → op.opcode ∈ rule.anchors →
    rule.recognize g id = some region → region.Bounded g →
    region.inputs.mapM g.connectedProducer = .ok sources →
    Ends (rule.build ⟨region, sources⟩) g (fun replacements built =>
      Lightens g region replacements built) fun built => ∃ added, g.Beside region.nodes added built

section

variable {g : Graph} {region : Region} {sources : List Outlet}

theorem beside_start (intact : g.Intact) (bounded : region.Bounded g) :
    g.Beside region.nodes [] g :=
  .start intact bounded.lt_size

/-! ## Rules that hand over what the region reads -/

/-- The first source of a region that weighs something may replace it. -/
theorem ends_firstSource (intact : g.Intact) (bounded : region.Bounded g)
    (captured : region.inputs.mapM g.connectedProducer = .ok sources)
    (heavy : 0 < g.weightOf region.nodes) :
    Ends (do return [← Match.source ⟨region, sources⟩ 0] : Edit (List Outlet)) g
      (fun replacements built => Lightens g region replacements built)
      fun built => ∃ added, g.Beside region.nodes added built := by
  have start := beside_start intact bounded
  simp only [ends_bind, ends_pure]
  refine ends_lift ?_ ⟨[], start⟩
  intro source found
  refine ⟨⟨[], start, heavy⟩, ?_⟩
  intro new member
  rcases List.mem_singleton.mp member with rfl
  exact bounded.permitted intact.toFaithful captured new (mem_of_entryAt found)

theorem careful_foldIdentityTranspose : foldIdentityTranspose.Careful := by
  intro g id op region sources intact operator _ recognized bounded captured
  simp only [foldIdentityTranspose] at recognized
  split at recognized
  · next axes found =>
    split at recognized
    · apply ends_firstSource intact bounded captured
      rw [Region.weightOf_single recognized operator]
      exact op.weight_pos
    · cases recognized
  · cases recognized

theorem careful_foldIdentityReshape : foldIdentityReshape.Careful := by
  intro g id op region sources intact operator _ recognized bounded captured
  simp only [foldIdentityReshape] at recognized
  split at recognized
  · split at recognized
    · apply ends_firstSource intact bounded captured
      rw [Region.weightOf_single recognized operator]
      exact op.weight_pos
    · cases recognized
  · cases recognized

theorem careful_foldQuantizeDequantize : foldQuantizeDequantize.Careful := by
  intro g id op region sources intact operator _ recognized bounded captured
  simp only [foldQuantizeDequantize] at recognized
  split at recognized
  · next quantization dtype outlet previous found produced =>
    split at recognized
    · split at recognized
      · apply ends_firstSource intact bounded captured
        rw [Region.weightOf_chain recognized produced operator]
        exact Nat.add_pos_right _ op.weight_pos
      · cases recognized
    · cases recognized
  · cases recognized

theorem careful_foldUploadDownload : foldUploadDownload.Careful := by
  intro g id op region sources intact operator _ recognized bounded captured
  simp only [foldUploadDownload] at recognized
  split at recognized
  · next outlet produced =>
    split at recognized
    · split at recognized
      · apply ends_firstSource intact bounded captured
        rw [Region.weightOf_chain recognized produced operator]
        exact Nat.add_pos_right _ op.weight_pos
      · cases recognized
    · cases recognized
  · cases recognized

/-! ## Rules that build one operator -/

/-- One operator is built on what the region reads. -/
theorem ends_oneOperator {op : Operator} {operands : List Outlet} {edit : Edit Outlet}
    (intact : g.Intact) (bounded : region.Bounded g)
    (captured : region.inputs.mapM g.connectedProducer = .ok sources)
    (constructs : g.Constructs op operands edit) (hasResult : op.outputCount = 1)
    (operandsRead : ∀ operand ∈ operands, operand ∈ sources) :
    Ends edit g
      (fun outlet built => g.Beside region.nodes [op] built ∧ g.slots.size ≤ outlet.node)
      fun built => ∃ added, g.Beside region.nodes added built := by
  have permitted := bounded.permitted intact.toFaithful captured
  exact (beside_start intact bounded).construct intact.toFaithful constructs hasResult
    fun operand member => permitted operand (operandsRead operand member)

/-- It may replace the region if it weighs less. -/
theorem lightens_of_oneOperator {op : Operator} {outlet : Outlet} {built : Graph}
    (lighter : op.weight < g.weightOf region.nodes)
    (done : g.Beside region.nodes [op] built ∧ g.slots.size ≤ outlet.node) :
    Lightens g region [outlet] built := by
  refine ⟨⟨[op], done.1, by simpa using lighter⟩, ?_⟩
  intro new member
  rcases List.mem_singleton.mp member with rfl
  exact Or.inl done.2

/-- This is what a rule does that applies one operator to the first source. -/
theorem ends_onFirstSource {op : Operator} {construct : Outlet → Edit Outlet} (intact : g.Intact)
    (bounded : region.Bounded g)
    (captured : region.inputs.mapM g.connectedProducer = .ok sources)
    (constructs : ∀ source, g.Constructs op [source] (construct source))
    (hasResult : op.outputCount = 1) (lighter : op.weight < g.weightOf region.nodes) :
    Ends (do return [← construct (← Match.source ⟨region, sources⟩ 0)] : Edit (List Outlet)) g
      (fun replacements built => Lightens g region replacements built)
      fun built => ∃ added, g.Beside region.nodes added built := by
  simp only [ends_bind, ends_pure]
  refine ends_lift ?_ ⟨[], beside_start intact bounded⟩
  intro source found
  refine (ends_oneOperator intact bounded captured (constructs source) hasResult ?_).imp
    (fun _ _ => lightens_of_oneOperator lighter) fun _ stays => stays
  intro operand member
  exact List.mem_singleton.mp member ▸ mem_of_entryAt found

theorem careful_lowerRelu : lowerRelu.Careful := by
  intro g id op region sources intact _ _ recognized bounded captured
  simp only [lowerRelu] at recognized
  split at recognized
  · next operator =>
    have lighter : (Operator.clamp .nonnegative).weight < g.weightOf region.nodes := by
      rw [Region.weightOf_single recognized operator]
      decide
    exact ends_onFirstSource intact bounded captured
      (fun source => constructs_clamp intact.reliable source .nonnegative) rfl lighter
  · cases recognized

theorem careful_foldTwoTransposes : foldTwoTransposes.Careful := by
  intro g id op region sources intact operator _ recognized bounded captured
  simp only [foldTwoTransposes] at recognized
  split at recognized
  · next outlet axes produced =>
    split at recognized
    · have stop : ∃ added, g.Beside region.nodes added g := ⟨[], beside_start intact bounded⟩
      simp only [foldTwoTransposes, ends_bind, ends_get]
      refine ends_lift (fun _ _ => ends_lift (fun _ _ => ?_) stop) stop
      split
      · apply ends_bind.mpr
        refine ends_lift (fun composed _ => ?_) stop
        have lighter : (Operator.transpose composed).weight < g.weightOf region.nodes := by
          rw [Region.weightOf_chain recognized produced operator]
          exact Nat.lt_add_of_pos_right op.weight_pos
        exact ends_onFirstSource intact bounded captured
          (fun source => constructs_transpose intact.reliable source composed) rfl lighter
      · exact stop
    · cases recognized
  · cases recognized

theorem careful_foldTwoReshapes : foldTwoReshapes.Careful := by
  intro g id op region sources intact operator _ recognized bounded captured
  simp only [foldTwoReshapes] at recognized
  split at recognized
  · next outlet dims produced =>
    split at recognized
    · have stop : ∃ added, g.Beside region.nodes added g := ⟨[], beside_start intact bounded⟩
      simp only [foldTwoReshapes, ends_bind, ends_get]
      refine ends_lift (fun _ _ => ?_) stop
      split
      · next shape _ =>
        have lighter : (Operator.reshape shape).weight < g.weightOf region.nodes := by
          rw [Region.weightOf_chain recognized produced operator]
          exact Nat.lt_add_of_pos_right op.weight_pos
        exact ends_onFirstSource intact bounded captured
          (fun source => constructs_reshape intact.reliable source shape) rfl lighter
      · exact stop
    · cases recognized
  · cases recognized

/-- A producer that is built anew weighs what the old one did. -/
theorem ends_withFurtherClamp {producer : Operator} {range : ClampRange} (intact : g.Intact)
    (bounded : region.Bounded g)
    (captured : region.inputs.mapM g.connectedProducer = .ok sources) :
    Ends (withFurtherClamp ⟨region, sources⟩ producer range) g
      (fun outlet built => ∃ op, (g.Beside region.nodes [op] built ∧ g.slots.size ≤ outlet.node) ∧
        op.weight = producer.weight)
      fun built => ∃ added, g.Beside region.nodes added built := by
  have stop : ∃ added, g.Beside region.nodes added g := ⟨[], beside_start intact bounded⟩
  unfold withFurtherClamp
  split
  · next convolution =>
    simp only [ends_bind]
    refine ends_lift (fun image foundImage => ends_lift (fun weights foundWeights =>
      ends_lift (fun bias foundBias => ?_) stop) stop) stop
    refine (ends_oneOperator intact bounded captured
      (constructs_conv2d intact.reliable image weights bias _) rfl ?_).imp
      (fun _ _ done => ⟨_, done, rfl⟩) fun _ stays => stays
    simp only [List.forall_mem_cons]
    exact ⟨mem_of_entryAt foundImage, mem_of_entryAt foundWeights, mem_of_entryAt foundBias,
      List.forall_mem_nil _⟩
  · simp only [ends_bind]
    refine ends_lift (fun first foundFirst => ends_lift (fun second foundSecond => ?_) stop) stop
    refine (ends_oneOperator intact bounded captured
      (constructs_matMul intact.reliable first second _) rfl ?_).imp
        (fun _ _ done => ⟨_, done, rfl⟩) fun _ stays => stays
    simp only [List.forall_mem_cons]
    exact ⟨mem_of_entryAt foundFirst, mem_of_entryAt foundSecond, List.forall_mem_nil _⟩
  · exact stop

theorem careful_fuseClamp : fuseClamp.Careful := by
  intro g id op region sources intact operator _ recognized bounded captured
  simp only [fuseClamp] at recognized
  split at recognized
  · next outlet firstOp produced =>
    split at recognized
    · have stop : ∃ added, g.Beside region.nodes added g := ⟨[], beside_start intact bounded⟩
      have nodes := Region.nodes_chain recognized
      have firstOperator := (producerOf_eq_some.mp produced).2
      simp only [fuseClamp, ends_bind, ends_get]
      refine ends_lift (fun _ _ => ?_) stop
      split
      · simp only [ends_bind, ends_pure]
        refine ends_lift (fun first foundFirst => ends_lift (fun producer found => ?_) stop) stop
        obtain rfl : first = outlet.node := by
          rw [Match.node, nodes] at foundFirst
          exact (Except.ok.inj foundFirst).symm
        have sameOp : producer.op = firstOp := by
          rw [op?, node_eq_ok.mp found] at firstOperator
          exact Option.some.inj firstOperator
        refine (ends_withFurtherClamp intact bounded captured).imp ?_ fun _ stays => stays
        rintro fused built ⟨added, ⟨beside, fresh⟩, weight⟩
        refine (beside.updateMarks fresh).imp (fun _ _ marked => ?_) fun _ marked => ⟨_, marked⟩
        refine lightens_of_oneOperator ?_ ⟨marked, fresh⟩
        rw [Region.weightOf_chain recognized produced operator, weight, sameOp]
        exact Nat.lt_add_of_pos_right op.weight_pos
      · exact stop
    · cases recognized
  · cases recognized

/-! ## The rule for the accelerator -/

/-- A convolution becomes six operators, none of which is a convolution on the
host. -/
theorem careful_lowerConv2dToAccel (quantization : Quantization) :
    (lowerConv2dToAccel quantization).Careful := by
  intro g id op region sources intact operator anchored recognized bounded captured
  rcases Operator.describes_of_opcode (List.mem_singleton.mp anchored) with ⟨_, rfl⟩
  have single := (recognize_lowerConv2dToAccel recognized).1
  have faithful := intact.toFaithful
  have permitted := bounded.permitted faithful captured
  have start := beside_start intact bounded
  have stop : ∃ added, g.Beside region.nodes added g := ⟨[], start⟩
  simp only [lowerConv2dToAccel, ends_bind, ends_get]
  refine ends_lift (fun _ _ => ends_lift (fun node _ => ends_lift (fun image foundImage =>
    ends_lift (fun weights _ => ends_lift (fun bias foundBias => ?_) stop) stop) stop) stop) stop
  split
  · simp only [ends_bind, ends_pure]
    refine ends_lift (fun weightsType _ => ?_) stop
    refine (start.construct faithful (constructs_constant start.intact.reliable _ _) rfl
      (List.forall_mem_nil _)).imp ?_
      fun _ stays => stays
    rintro stored _ ⟨first, storedFresh⟩
    refine (first.construct faithful (constructs_quantize first.intact.reliable image _ _) rfl
      ?_).imp ?_ fun _ stays => stays
    · exact List.forall_mem_singleton.mpr (permitted image (mem_of_entryAt foundImage))
    rintro quantized _ ⟨second, quantizedFresh⟩
    refine (second.construct faithful (constructs_accelUpload second.intact.reliable quantized) rfl
      ?_).imp ?_ fun _ stays => stays
    · exact List.forall_mem_singleton.mpr (Or.inl quantizedFresh)
    rintro uploaded _ ⟨third, uploadedFresh⟩
    refine (third.construct faithful
      (constructs_accelConv2d third.intact.reliable uploaded stored bias _) rfl ?_).imp ?_
      fun _ stays => stays
    · simp only [List.forall_mem_cons]
      exact ⟨Or.inl uploadedFresh, Or.inl storedFresh, permitted bias (mem_of_entryAt foundBias),
        List.forall_mem_nil _⟩
    rintro convolved _ ⟨fourth, convolvedFresh⟩
    refine (fourth.construct faithful (constructs_accelDownload fourth.intact.reliable convolved)
      rfl ?_).imp ?_ fun _ stays => stays
    · exact List.forall_mem_singleton.mpr (Or.inl convolvedFresh)
    rintro downloaded _ ⟨fifth, downloadedFresh⟩
    refine (fifth.construct faithful (constructs_dequantize fifth.intact.reliable downloaded _) rfl
      ?_).imp ?_ fun _ stays => stays
    · exact List.forall_mem_singleton.mpr (Or.inl downloadedFresh)
    rintro result built ⟨sixth, resultFresh⟩
    refine ⟨⟨_, sixth, ?_⟩, ?_⟩
    · rw [Region.weightOf_single single operator]
      exact Nat.lt_succ_self 6
    · intro new member
      rcases List.mem_singleton.mp member with rfl
      exact Or.inl resultFresh
  · exact stop

end

end Rule
end TensorCompiler
