import TensorCompiler.Proofs.Rewriting.Substitution
import TensorCompiler.Rule.Accelerator
import TensorCompiler.Rule.Activation
import TensorCompiler.Rule.Quantization
import TensorCompiler.Rule.Reshape
import TensorCompiler.Rule.Transpose

namespace TensorCompiler

/-!
# The rules keep values

Each rule is justified by a law about its operators.  Rules that remove moves of
data rest on the laws of transposes and reshapes, the others on the laws that an
interpretation is required to satisfy.

A rule never fails on a valid graph: the operands that it takes over have the
types that its new operator needs, because the old operators needed them too.
-/

open Interpretation (Fits)

namespace Graph

variable {g : Graph} {id index : Nat} {outlet : Outlet} {op : Operator}

theorem producerOf_eq_some :
    g.producerOf id index = some (outlet, op) ↔
      g.Reads ⟨id, index⟩ outlet ∧ g.op? outlet.node = some op := by
  unfold producerOf Reads
  cases found : g.producer ⟨id, index⟩ with
  | error failure => simp
  | ok source =>
      cases source with
      | none => simp
      | some other =>
          simp only [Option.map_eq_some_iff, Prod.mk.injEq, Except.ok.injEq, Option.some.injEq]
          constructor
          · rintro ⟨_, operator, rfl, rfl⟩
            exact ⟨rfl, operator⟩
          · rintro ⟨rfl, operator⟩
            exact ⟨op, operator, rfl, rfl⟩

end Graph

theorem Operator.HasTypes.exists_result {op : Operator} {operands results : List TensorType}
    (typing : op.HasTypes operands results) (notOutput : op ≠ .output) :
    ∃ result, results = [result] := by
  cases typing with
  | output => exact absurd rfl notOutput
  | _ => exact ⟨_, rfl⟩

theorem Graph.getElem?_of_reads {g : Graph} {id index : Nat} {node : Node} {sources : List Outlet}
    {outlet : Outlet} (found : g.node? id = some node) (connected : node.inputs = sources.map some)
    (reads : g.Reads ⟨id, index⟩ outlet) : sources[index]? = some outlet := by
  rcases Graph.reads_iff.mp reads with ⟨again, foundAgain, entry⟩
  rcases Option.some.inj (found.symm.trans foundAgain) with rfl
  rw [connected, List.getElem?_map] at entry
  rcases Option.map_eq_some_iff.mp entry with ⟨source, present, same⟩
  rw [present, Option.some.inj same]

namespace Region

variable {g : Graph} {region : Region} {sources : List Outlet}

/-- A region of one node, with what it reads and the types at its ends. -/
structure OneNode (g : Graph) (region : Region) (sources : List Outlet) (id : Nat) (op : Operator)
    (types : List TensorType) (result : TensorType) : Prop where
  nodes : region.nodes = [id]
  outputs : region.outputs = [⟨id, 0⟩]
  reads : ∀ index outlet, g.Reads ⟨id, index⟩ outlet → sources[index]? = some outlet
  typed : g.TypesAt sources types
  accepted : op.HasTypes types [result]
  oldTyped : g.outputType ⟨id, 0⟩ = .ok result
  value : ∀ {α : DataType → Type} (I : Interpretation α) assign values, I.Solves assign g values →
    values id = I.result assign id op (sources.map fun source => values source.node)

/-- A region of two nodes, the second of which reads nothing but the first. -/
structure TwoNodes (g : Graph) (region : Region) (sources : List Outlet) (first second : Nat)
    (firstOp secondOp : Operator) (types : List TensorType) (middle result : TensorType) :
    Prop where
  nodes : region.nodes = [first, second]
  outputs : region.outputs = [⟨second, 0⟩]
  reads : ∀ index outlet, g.Reads ⟨first, index⟩ outlet → sources[index]? = some outlet
  typed : g.TypesAt sources types
  firstAccepted : firstOp.HasTypes types [middle]
  secondAccepted : secondOp.HasTypes [middle] [result]
  oldTyped : g.outputType ⟨second, 0⟩ = .ok result
  value : ∀ {α : DataType → Type} (I : Interpretation α) assign values, I.Solves assign g values →
    values second = I.result assign second secondOp
      [I.result assign first firstOp (sources.map fun source => values source.node)]

theorem exists_oneNode {id : Nat} {op : Operator} (valid : g.Valid)
    (replaceable : region.Replaceable g) (operator : g.op? id = some op)
    (recognized : single g id = some region)
    (captured : region.inputs.mapM g.connectedProducer = .ok sources) :
    ∃ types result, OneNode g region sources id op types result := by
  rcases single_eq_some recognized with ⟨node, found, nodes, inputs, outputs⟩
  rcases valid.typed id node found with ⟨operands, types, connected, typed, accepted⟩
  rw [Graph.op?, found] at operator
  rcases Option.some.inj operator with rfl
  rw [inputs] at captured
  rcases Graph.capture_node found connected captured with rfl
  rcases replaceable.admitted id (by simp [nodes]) with ⟨again, foundAgain, notOutput⟩
  rcases Option.some.inj (found.symm.trans foundAgain) with rfl
  rcases accepted.exists_result notOutput with ⟨result, results⟩
  refine ⟨types, result, nodes, outputs,
    fun _ _ => Graph.getElem?_of_reads found connected, typed, results ▸ accepted, ?_, ?_⟩
  · refine Graph.outputType_iff.mpr ⟨node, found, ?_⟩
    rw [Node.signature, results]
    rfl
  · intro α I assign values solves
    rw [solves id node found, Graph.producers_eq connected]

theorem exists_twoNodes {second : Nat} {outlet : Outlet} {firstOp secondOp : Operator}
    (valid : g.Valid) (replaceable : region.Replaceable g)
    (operator : g.op? second = some secondOp) (one : secondOp.inputCount = 1)
    (produced : g.producerOf second 0 = some (outlet, firstOp))
    (recognized : chain g outlet.node second = some region)
    (captured : region.inputs.mapM g.connectedProducer = .ok sources) :
    ∃ types middle result,
      TwoNodes g region sources outlet.node second firstOp secondOp types middle result := by
  rcases Graph.producerOf_eq_some.mp produced with ⟨reads, firstOperator⟩
  rcases Graph.reads_iff.mp reads with ⟨node, found, entry⟩
  rcases valid.typed second node found with
    ⟨operands, middles, connected, middleTyped, secondAccepted⟩
  rw [Graph.op?, found] at operator
  rcases Option.some.inj operator with rfl
  -- The second node has one operand, and that is the outlet of the first.
  obtain ⟨only, rfl⟩ : ∃ only, operands = [only] := by
    apply List.length_eq_one_iff.mp
    rw [middleTyped.length_eq, secondAccepted.counts.1, one]
  rw [connected] at entry
  obtain rfl : only = outlet := Option.some.inj (Option.some.inj entry)
  rcases chain_eq_some recognized found connected with ⟨first, firstFound, nodes, inputs, outputs⟩
  rcases valid.typed only.node first firstFound with
    ⟨firstOperands, types, firstConnected, typed, firstAccepted⟩
  rw [Graph.op?, firstFound] at firstOperator
  rcases Option.some.inj firstOperator with rfl
  rw [inputs] at captured
  rcases Graph.capture_node firstFound firstConnected captured with rfl
  rcases replaceable.admitted second (by simp [nodes]) with ⟨again, foundAgain, notOutput⟩
  rcases Option.some.inj (found.symm.trans foundAgain) with rfl
  rcases secondAccepted.exists_result notOutput with ⟨result, results⟩
  rcases List.forall₂_cons_left_iff.mp middleTyped with ⟨middle, _, middleFound, none, rfl⟩
  rcases List.forall₂_nil_left_iff.mp none with rfl
  rcases Graph.outputType_iff.mp middleFound with ⟨firstAgain, firstFoundAgain, firstEntry⟩
  rcases Option.some.inj (firstFound.symm.trans firstFoundAgain) with rfl
  rcases firstAccepted.eq_singleton firstEntry with ⟨_, firstResults⟩
  refine ⟨types, middle, result, nodes, outputs,
    fun _ _ => Graph.getElem?_of_reads firstFound firstConnected, typed,
    firstResults ▸ firstAccepted, results ▸ secondAccepted, ?_, ?_⟩
  · refine Graph.outputType_iff.mpr ⟨node, found, ?_⟩
    rw [Node.signature, results]
    rfl
  · intro α I assign values solves
    rw [solves second node found, Graph.producers_eq connected, List.map_singleton,
      solves only.node first firstFound, Graph.producers_eq firstConnected]

end Region

namespace Rule

variable {α : DataType → Type}

/-- Whatever region a rule recognizes, the rule builds one outlet that stands for
the one result of the region. -/
def Sound (rule : Rule) (I : Interpretation α) : Prop :=
  ∀ {g : Graph} {id : Nat} {op : Operator} {region : Region} {sources : List Outlet},
    g.Valid → g.op? id = some op → op.opcode ∈ rule.anchors →
    rule.recognize g id = some region → region.Replaceable g →
    region.inputs.mapM g.connectedProducer = .ok sources →
    ∃ old new built, region.outputs = [old] ∧
      rule.build ⟨region, sources⟩ g = .ok [new] built ∧ Substitutes I g region old new built

variable {I : Interpretation α}

/-! ## Transposes -/

theorem sound_foldIdentityTranspose : foldIdentityTranspose.Sound I := by
  intro g id op region sources valid operator _ recognized replaceable captured
  simp only [foldIdentityTranspose] at recognized
  split at recognized
  · next axes found =>
    split at recognized
    · next identity =>
      rcases Region.exists_oneNode valid replaceable found recognized captured with
        ⟨types, result, shape⟩
      cases shape.accepted with
      | @transpose _ type permutes =>
          rcases shape.typed.eq_singleton with ⟨source, rfl, newTyped⟩
          have length : axes.length = type.shape.length :=
            Axes.length_of_permutes (Axes.isPermutation_iff.mp permutes)
          have stays : axes = List.range type.shape.length := by
            rw [← length]
            exact beq_iff_eq.mp identity
          have sameType : TensorType.mk type.dtype (Graph.permuteDims axes type.shape) = type := by
            rw [stays, Axes.permuteDims_range]
          refine ⟨⟨id, 0⟩, source, g, shape.outputs, rfl, .source valid replaceable
            (replaceable.independent captured source List.mem_cons_self)
            (shape.oldTyped.trans (congrArg _ sameType)) newTyped ?_⟩
          intro assign values fits solves
          have sourceType := solves.type valid fits newTyped
          rw [shape.value I assign values solves, stays, ← sourceType]
          exact (Tensor.transpose_range _).symm
    · cases recognized
  · cases recognized

theorem composeAxes_eq_ok {first second : List Nat} (below : ∀ axis ∈ second, axis < first.length) :
    composeAxes first second = .ok (Graph.permuteDims second first) := by
  refine Checked.mapM_eq_ok.mpr (List.forall₂_map_right_iff.mpr ?_)
  apply List.forall₂_same.mpr
  intro axis member
  simp [entryAt, below axis member]

/-- A transpose of a transpose has the value of the transpose by the composed
axes. -/
theorem sound_foldTwoTransposes : foldTwoTransposes.Sound I := by
  intro g id op region sources valid operator anchored recognized replaceable captured
  simp only [foldTwoTransposes] at recognized anchored
  obtain ⟨second, rfl⟩ : ∃ second, op = .transpose second := by
    cases op <;> simp_all [Operator.opcode]
  split at recognized
  · next outlet first produced =>
    split at recognized
    · rcases Region.exists_twoNodes valid replaceable operator rfl produced recognized captured with
        ⟨types, middle, result, shape⟩
      cases shape.firstAccepted with
      | @transpose _ type permutesFirst =>
          cases shape.secondAccepted with
          | transpose permutesSecond =>
              rcases shape.typed.eq_singleton with ⟨source, rfl, newTyped⟩
              have firstPerm := Axes.isPermutation_iff.mp permutesFirst
              have secondPerm : second.Perm (List.range type.rank) := by
                have perm := Axes.isPermutation_iff.mp permutesSecond
                rwa [TensorType.rank, Axes.length_permuteDims,
                  Axes.length_of_permutes firstPerm] at perm
              have below : ∀ axis ∈ second, axis < first.length := by
                intro axis member
                rw [Axes.length_of_permutes firstPerm]
                exact List.mem_range.mp (secondPerm.mem_iff.mp member)
              have composed := Axes.permutes_permuteDims firstPerm secondPerm
              have oldTyped := shape.oldTyped
              rw [Axes.permuteDims_permuteDims below] at oldTyped
              have same : ∀ assign values, Fits assign g → I.Solves assign g values →
                  I.result assign g.slots.size (.transpose (Graph.permuteDims second first))
                    [values source.node] = values id := by
                intro assign values fits solves
                have sourceType := solves.type valid fits newTyped
                rw [← sourceType] at firstPerm secondPerm
                rw [shape.value I assign values solves]
                exact (Tensor.transpose_transpose (Axes.isPermutation_iff.mpr firstPerm)
                  (Axes.isPermutation_iff.mpr secondPerm)).symm
              rcases Substitutes.exists_applies valid replaceable captured shape.typed
                (.transpose (Axes.isPermutation_iff.mpr composed)) Nat.one_ne_zero oldTyped
                same with ⟨built, applies, substitutes⟩
              refine ⟨_, _, built, shape.outputs, ?_, substitutes⟩
              have firstOperator := (Graph.producerOf_eq_some.mp produced).2
              have done := Graph.transpose_eq_ok.mpr applies
              simp only [foldTwoTransposes, Stateful.bind_eq_ok, Stateful.get_eq_ok,
                Stateful.lift_eq_ok, Match.node, Match.source, shape.nodes]
              refine ⟨g, g, ⟨rfl, rfl⟩, _, g, ⟨rfl, rfl⟩, _, g, ⟨rfl, rfl⟩, ?_⟩
              simp only [firstOperator, operator, Stateful.bind_eq_ok, Stateful.lift_eq_ok,
                Stateful.pure_eq_ok]
              exact ⟨_, g, ⟨composeAxes_eq_ok below, rfl⟩, _, g, ⟨rfl, rfl⟩, _, built, done, rfl,
                rfl⟩
    · cases recognized
  · cases recognized

/-! ## Reshapes -/

theorem sound_foldTwoReshapes : foldTwoReshapes.Sound I := by
  intro g id op region sources valid operator anchored recognized replaceable captured
  simp only [foldTwoReshapes] at recognized anchored
  obtain ⟨second, rfl⟩ : ∃ second, op = .reshape second := by
    cases op <;> simp_all [Operator.opcode]
  split at recognized
  · next outlet first produced =>
    split at recognized
    · rcases Region.exists_twoNodes valid replaceable operator rfl produced recognized captured with
        ⟨types, middle, result, shape⟩
      cases shape.firstAccepted with
      | @reshape _ type _ count firstShaped firstRequested firstPresent =>
          cases shape.secondAccepted with
          | @reshape _ _ _ again secondShaped secondRequested secondPresent =>
              rcases shape.typed.eq_singleton with ⟨source, rfl, newTyped⟩
              rcases TensorType.eq_of_ofDims? firstShaped with rfl
              obtain rfl : count = again :=
                Except.ok.inj (firstRequested.symm.trans secondPresent)
              rcases TensorType.eq_of_ofDims? secondShaped with rfl
              have same : ∀ assign values, Fits assign g → I.Solves assign g values →
                  I.result assign g.slots.size (.reshape second) [values source.node] =
                    values id := by
                intro assign values fits solves
                have sourceType := solves.type valid fits newTyped
                rw [← sourceType] at firstPresent
                have elements := TensorType.prod_of_elements firstPresent
                rw [shape.value I assign values solves]
                exact (Tensor.reshape_reshape
                  (elements.trans (TensorType.prod_of_elements firstRequested).symm)
                  (elements.trans (TensorType.prod_of_elements secondRequested).symm)).symm
              rcases Substitutes.exists_applies valid replaceable captured shape.typed
                (.reshape secondShaped secondRequested firstPresent) Nat.one_ne_zero shape.oldTyped
                same with ⟨built, applies, substitutes⟩
              refine ⟨_, _, built, shape.outputs, ?_, substitutes⟩
              simp only [foldTwoReshapes, Stateful.bind_eq_ok, Stateful.get_eq_ok,
                Stateful.lift_eq_ok, Match.node, Match.source, shape.nodes]
              refine ⟨g, g, ⟨rfl, rfl⟩, _, g, ⟨rfl, rfl⟩, ?_⟩
              simp only [operator, Stateful.bind_eq_ok, Stateful.lift_eq_ok, Stateful.pure_eq_ok]
              exact ⟨_, g, ⟨rfl, rfl⟩, _, built, Graph.reshape_eq_ok.mpr applies, rfl, rfl⟩
    · cases recognized
  · cases recognized

theorem sound_foldIdentityReshape : foldIdentityReshape.Sound I := by
  intro g id op region sources valid operator _ recognized replaceable captured
  simp only [foldIdentityReshape] at recognized
  split at recognized
  · next dims outlet _ found produced =>
    split at recognized
    · next across =>
      rcases Region.exists_oneNode valid replaceable found recognized captured with
        ⟨types, result, shape⟩
      cases shape.accepted with
      | @reshape _ type _ _ shaped _ _ =>
          rcases shape.typed.eq_singleton with ⟨source, rfl, newTyped⟩
          have here := shape.reads 0 outlet (Graph.producerOf_eq_some.mp produced).1
          obtain rfl : source = outlet := Option.some.inj here
          have sameType : result = type := by
            rw [sameTypeAcross, newTyped, shape.oldTyped] at across
            exact (beq_iff_eq.mp across).symm
          subst sameType
          refine ⟨⟨id, 0⟩, source, g, shape.outputs, rfl, .source valid replaceable
            (replaceable.independent captured source List.mem_cons_self) shape.oldTyped newTyped ?_⟩
          intro assign values fits solves
          have sourceType := solves.type valid fits newTyped
          have dimsSame : dims = (values source.node).shape :=
            (congrArg TensorType.shape
              (sourceType.trans (TensorType.eq_of_ofDims? shaped))).symm
          rw [shape.value I assign values solves, dimsSame]
          exact (Tensor.reshape_shape _).symm
    · cases recognized
  · cases recognized

/-! ## Activations -/

theorem sound_lowerRelu : lowerRelu.Sound I := by
  intro g id op region sources valid operator _ recognized replaceable captured
  simp only [lowerRelu] at recognized
  split at recognized
  · next found =>
    rcases Region.exists_oneNode valid replaceable found recognized captured with
      ⟨types, result, shape⟩
    cases shape.accepted with
    | unary =>
        rcases shape.typed.eq_singleton with ⟨source, rfl, newTyped⟩
        have same : ∀ assign values, Fits assign g → I.Solves assign g values →
            I.result assign g.slots.size (.clamp .nonnegative) [values source.node] =
              values id := by
          intro assign values _ solves
          rw [shape.value I assign values solves]
          exact (I.relu _).symm
        rcases Substitutes.exists_applies valid replaceable captured shape.typed .clamp
          Nat.one_ne_zero shape.oldTyped same with ⟨built, applies, substitutes⟩
        refine ⟨_, _, built, shape.outputs, ?_, substitutes⟩
        simp only [lowerRelu, Stateful.bind_eq_ok, Stateful.lift_eq_ok, Stateful.pure_eq_ok,
          Match.source]
        exact ⟨_, g, ⟨rfl, rfl⟩, _, built, Graph.clamp_eq_ok.mpr applies, rfl, rfl⟩
  · cases recognized

/-- An operator that has the value of a clamp after another operator takes the
place of the two, with the marks of the first. -/
theorem exists_fused {g : Graph} {region : Region} {sources : List Outlet} {first second : Nat}
    {firstOp : Operator} {range : ClampRange} {types : List TensorType}
    {middle result : TensorType} (fused : Operator) (valid : g.Valid)
    (replaceable : region.Replaceable g)
    (captured : region.inputs.mapM g.connectedProducer = .ok sources)
    (shape : Region.TwoNodes g region sources first second firstOp (.clamp range) types middle
      result)
    (firstOperator : g.op? first = some firstOp) (operator : g.op? second = some (.clamp range))
    (accepted : fused.HasTypes types [result]) (takes : fused.inputCount ≠ 0)
    (same : ∀ assign values, Fits assign g → I.Solves assign g values →
      I.result assign g.slots.size fused (sources.map fun source => values source.node) =
        values second)
    (builds : ∀ built, g.Applies fused sources ⟨g.slots.size, 0⟩ built →
      withFurtherClamp ⟨region, sources⟩ firstOp range g = .ok ⟨g.slots.size, 0⟩ built) :
    ∃ old new built, region.outputs = [old] ∧
      fuseClamp.build ⟨region, sources⟩ g = .ok [new] built ∧
      Substitutes I g region old new built := by
  rcases Option.map_eq_some_iff.mp firstOperator with ⟨producer, producerFound, rfl⟩
  rcases valid.exists_applies shape.typed accepted with ⟨name, unmarked, applies, appended⟩
  rcases appended.updateMarks fun _ => producer.marks with ⟨built, marked, appendedMarked⟩
  refine ⟨⟨second, 0⟩, ⟨g.slots.size, 0⟩, built, shape.outputs, ?_, ?_⟩
  · simp only [fuseClamp, Stateful.bind_eq_ok, Stateful.get_eq_ok, Stateful.lift_eq_ok, Match.node,
      shape.nodes]
    refine ⟨g, g, ⟨rfl, rfl⟩, _, g, ⟨rfl, rfl⟩, ?_⟩
    simp only [operator, Stateful.bind_eq_ok, Stateful.lift_eq_ok, Stateful.pure_eq_ok]
    exact ⟨_, g, ⟨rfl, rfl⟩, producer, g, ⟨Graph.node_eq_ok.mpr producerFound, rfl⟩, _, unmarked,
      builds unmarked applies, (), built, marked, rfl, rfl⟩
  · exact .node valid replaceable appendedMarked rfl shape.typed accepted takes shape.oldTyped
      (replaceable.independent captured) same

theorem sound_fuseClamp : fuseClamp.Sound I := by
  intro g id op region sources valid operator anchored recognized replaceable captured
  simp only [fuseClamp] at recognized anchored
  obtain ⟨range, rfl⟩ : ∃ range, op = .clamp range := by
    cases op <;> simp_all [Operator.opcode]
  split at recognized
  · next outlet firstOp produced =>
    split at recognized
    · next suits =>
      simp only [Bool.and_eq_true] at suits
      rcases suits with ⟨⟨⟨ends, _⟩, _⟩, _⟩
      rcases Region.exists_twoNodes valid replaceable operator rfl produced recognized captured with
        ⟨types, middle, result, shape⟩
      have firstOperator := (Graph.producerOf_eq_some.mp produced).2
      obtain rfl : middle = result := by
        cases shape.secondAccepted with
        | clamp => rfl
      have operandTypes : ∀ assign values, Fits assign g → I.Solves assign g values →
          sources.map (fun source => (values source.node).type) = types := by
        intro assign values fits solves
        exact shape.typed.map_eq fun _ _ _ typed => solves.type valid fits typed
      cases shape.firstAccepted with
      | @conv2d convolution _ _ _ _ floats fits =>
          rcases List.length_eq_three.mp shape.typed.length_eq with ⟨image, weights, bias, rfl⟩
          refine exists_fused
            (.conv2d { convolution with clamp := convolution.clamp.intersect range }) valid
            replaceable captured shape firstOperator operator (.conv2d floats fits)
            (by simp [Operator.inputCount, Operator.opcode]) ?_ ?_
          · intro assign values assigned solves
            have accepted := shape.firstAccepted
            rw [← operandTypes assign values assigned solves] at accepted
            rw [shape.value I assign values solves]
            exact I.conv2d_clamp range accepted
          · intro built applies
            simp only [withFurtherClamp, Stateful.bind_eq_ok, Stateful.lift_eq_ok, Match.source]
            exact ⟨_, g, ⟨rfl, rfl⟩, _, g, ⟨rfl, rfl⟩, _, g, ⟨rfl, rfl⟩,
              Graph.conv2d_eq_ok.mpr applies⟩
      | @matMul clamp _ _ _ fits =>
          rcases List.length_eq_two.mp shape.typed.length_eq with ⟨left, right, rfl⟩
          refine exists_fused (.matMul (clamp.intersect range)) valid replaceable captured shape
            firstOperator operator (.matMul fits)
            (by simp [Operator.inputCount, Operator.opcode]) ?_ ?_
          · intro assign values assigned solves
            have accepted := shape.firstAccepted
            rw [← operandTypes assign values assigned solves] at accepted
            rw [shape.value I assign values solves]
            exact I.matMul_clamp range accepted
          · intro built applies
            simp only [withFurtherClamp, Stateful.bind_eq_ok, Stateful.lift_eq_ok, Match.source]
            exact ⟨_, g, ⟨rfl, rfl⟩, _, g, ⟨rfl, rfl⟩, Graph.matMul_eq_ok.mpr applies⟩
      | _ => cases ends
    · cases recognized
  · cases recognized

/-! ## Quantized values and the accelerator -/

theorem sound_foldQuantizeDequantize : foldQuantizeDequantize.Sound I := by
  intro g id op region sources valid operator _ recognized replaceable captured
  simp only [foldQuantizeDequantize] at recognized
  split at recognized
  · next quantization dtype outlet previous found produced =>
    split at recognized
    · next source _ read =>
      split at recognized
      · next suits =>
        simp only [Bool.and_eq_true] at suits
        rcases suits with ⟨⟨agrees, elements⟩, _⟩
        rcases Region.exists_twoNodes valid replaceable found rfl produced recognized captured with
          ⟨types, middle, result, shape⟩
        cases shape.firstAccepted with
        | @dequantize _ type quantized =>
            cases shape.secondAccepted with
            | quantize _ _ =>
                rcases shape.typed.eq_singleton with ⟨only, rfl, newTyped⟩
                obtain rfl : only = source := Option.some.inj
                  (shape.reads 0 source (Graph.producerOf_eq_some.mp read).1)
                obtain rfl : type.dtype = dtype := by
                  rw [hasElements, newTyped] at elements
                  exact beq_iff_eq.mp elements
                refine ⟨⟨id, 0⟩, only, g, shape.outputs, rfl, .source valid replaceable
                  (replaceable.independent captured only List.mem_cons_self) shape.oldTyped
                  newTyped ?_⟩
                intro assign values assigned solves
                have sourceType := solves.type valid assigned newTyped
                rw [← sourceType] at quantized
                rw [shape.value I assign values solves, ← sourceType]
                exact (I.quantize_dequantize agrees quantized).symm
      · cases recognized
    · cases recognized
  · cases recognized

theorem sound_foldUploadDownload : foldUploadDownload.Sound I := by
  intro g id op region sources valid operator anchored recognized replaceable captured
  simp only [foldUploadDownload] at recognized anchored
  obtain rfl : op = .accelUpload := by
    cases op <;> simp_all [Operator.opcode]
  split at recognized
  · next outlet produced =>
    split at recognized
    · next source _ read =>
      split at recognized
      · rcases Region.exists_twoNodes valid replaceable operator rfl produced recognized
          captured with ⟨types, middle, result, shape⟩
        cases shape.firstAccepted with
        | accelDownload =>
            cases shape.secondAccepted with
            | accelUpload quantized =>
                rcases shape.typed.eq_singleton with ⟨only, rfl, newTyped⟩
                refine ⟨⟨id, 0⟩, only, g, shape.outputs, rfl, .source valid replaceable
                  (replaceable.independent captured only List.mem_cons_self) shape.oldTyped
                  newTyped ?_⟩
                intro assign values assigned solves
                have sourceType := solves.type valid assigned newTyped
                rw [← sourceType] at quantized
                rw [shape.value I assign values solves]
                exact (I.upload_download quantized).symm
      · cases recognized
    · cases recognized
  · cases recognized

end Rule

end TensorCompiler
