import TensorCompiler.Proofs.Construction.Builders
import TensorCompiler.Proofs.Evaluation.Values
import TensorCompiler.Proofs.Rewriting.Replacement

namespace TensorCompiler

/-!
# Outlets that stand for others

A rule is justified by one fact: what it builds carries the value of what it
replaces.  The built outlet is either something the region reads already, or the
result of one new node on what the region reads.  Old nodes read what they did,
so values that solve the graph with the new node solve the old one as well.

The regions that rules recognize have one or two nodes.  All they read from
outside is read by their first node.
-/

/-! ## Redirected nodes -/

/-- A node of a changed graph is an old one whose inputs read other outlets of
the same types. -/
structure Redirected (g h : Graph) (change : Outlet → Outlet) (before now : Node) : Prop where
  op : now.op = before.op
  results : now.signature.results = before.signature.results
  inputs : now.inputs = before.inputs.map (Option.map change)
  types : ∀ source ∈ before.producers, ∀ type, g.outputType source = .ok type →
    h.outputType (change source) = .ok type

namespace Redirected

variable {g h : Graph} {change : Outlet → Outlet} {before now : Node}

theorem producers (redirected : Redirected g h change before now) :
    now.producers = before.producers.map change := by
  rw [Node.producers, redirected.inputs, Node.producers]
  induction before.inputs with
  | nil => rfl
  | cons source rest inductionHypothesis => cases source <;> simp_all

theorem wellTyped (redirected : Redirected g h change before now) (typed : g.WellTyped before) :
    h.WellTyped now := by
  rcases typed with ⟨sources, types, connected, operands, accepted⟩
  refine ⟨sources.map change, types, ?_, ?_, ?_⟩
  · rw [redirected.inputs, connected, List.map_map, List.map_map]
    rfl
  · apply operands.redirect
    rw [← Graph.producers_eq connected]
    exact redirected.types
  · have results : now.outputs.map Wire.type = before.outputs.map Wire.type := redirected.results
    rw [redirected.op, results]
    exact accepted

end Redirected

theorem Graph.Valid.redirect {g h : Graph} {change : Outlet → Outlet} (valid : g.Valid)
    (linked : h.Linked) (acyclic : h.Acyclic) (outputs : h.outputs = g.outputs)
    (kept : ∀ id ∈ g.outputs, ∃ now, h.node? id = some now)
    (nodes : ∀ id now, h.node? id = some now →
      ∃ before, g.node? id = some before ∧ Redirected g h change before now) :
    h.Valid where
  linked := linked
  acyclic := acyclic
  typed := by
    intro id now found
    rcases nodes id now found with ⟨before, foundBefore, redirected⟩
    exact redirected.wellTyped (valid.typed id before foundBefore)
  declared := by
    intro id member
    rw [outputs] at member
    rcases kept id member with ⟨now, found⟩
    rcases nodes id now found with ⟨before, foundBefore, redirected⟩
    have isOutput := valid.declared id member
    rw [Graph.op?, foundBefore] at isOutput
    rw [Graph.op?, found, Option.map_some, redirected.op]
    exact isOutput

/-! ## Nodes of larger graphs -/

namespace Graph

variable {g h : Graph}

theorem Enlarges.exists_signature {matched : List Nat} (beside : g.Enlarges matched h) {id : Nat}
    {node : Node} (found : g.node? id = some node) :
    ∃ kept, h.node? id = some kept ∧ kept.signature = node.signature := by
  rcases exists_node_of_view (beside.old id (lt_size_of_node? found)) found with
    ⟨kept, present, same⟩
  exact ⟨kept, present, Node.signature_of_unread same⟩

theorem Enlarges.outputType {matched : List Nat} (beside : g.Enlarges matched h) {outlet : Outlet}
    {type : TensorType} (typed : g.outputType outlet = .ok type) :
    h.outputType outlet = .ok type := by
  rcases outputType_iff.mp typed with ⟨node, found, entry⟩
  rcases beside.exists_signature found with ⟨kept, present, same⟩
  exact outputType_iff.mpr ⟨kept, present, same ▸ entry⟩

theorem SameNodes.outputType (same : g.SameNodes h) {outlet : Outlet} {type : TensorType}
    (typed : g.outputType outlet = .ok type) : h.outputType outlet = .ok type := by
  rcases outputType_eq_ok.mp typed with ⟨wire, wired, rfl⟩
  rcases same.exists_wire wired with ⟨kept, keptWired, unlinked⟩
  exact outputType_eq_ok.mpr ⟨kept, keptWired, congrArg (·.type) unlinked⟩

end Graph

/-! ## Values across changes of a graph -/

namespace Interpretation

variable {α : DataType → Type} {I : Interpretation α} {assign : Nat → Tensor α} {g h : Graph}
  {values : Nat → Tensor α}

/-- Values solve a graph whose nodes read the same values as in another. -/
theorem Solves.of_nodes (solves : I.Solves assign g values)
    (nodes : ∀ id node, h.node? id = some node → ∃ before, g.node? id = some before ∧
      node.op = before.op ∧ node.producers.map (fun source => values source.node) =
        before.producers.map fun source => values source.node) :
    I.Solves assign h values := by
  intro id node found
  rcases nodes id node found with ⟨before, foundBefore, op, operands⟩
  rw [solves id before foundBefore, op, operands]

theorem Fits.of_nodes (fits : Fits assign g)
    (nodes : ∀ id node, h.node? id = some node → node.op.inputCount = 0 →
      ∃ before, g.node? id = some before ∧ node.op = before.op ∧
        node.signature.results = before.signature.results) :
    Fits assign h := by
  intro id node found none
  rcases nodes id node found none with ⟨before, foundBefore, op, results⟩
  rw [results]
  exact fits id before foundBefore (op ▸ none)

/-- The values of a graph built beside another are values of the other. -/
theorem Solves.restrict {matched : List Nat} (solves : I.Solves assign h values)
    (beside : g.Extends matched h) : I.Solves assign g values := by
  apply solves.of_nodes
  intro id node found
  rcases beside.exists_signature found with ⟨kept, present, same⟩
  rcases Signature.mk.inj same with ⟨op, inputs, _⟩
  refine ⟨kept, present, op.symm, ?_⟩
  rw [Node.producers, Node.producers, inputs]

theorem Fits.restrict {matched : List Nat} (fits : Fits assign h)
    (beside : g.Extends matched h) : Fits assign g := by
  apply fits.of_nodes
  intro id node found _
  rcases beside.exists_signature found with ⟨kept, present, same⟩
  rcases Signature.mk.inj same with ⟨op, _, results⟩
  exact ⟨kept, present, op.symm, results.symm⟩

end Interpretation

/-! ## What a region reads -/

namespace Graph

variable {g : Graph} {id : Nat} {node : Node}

/-- Asking for everything that a node reads gives its operands. -/
theorem capture_node {sources operands : List Outlet} (found : g.node? id = some node)
    (connected : node.inputs = operands.map some)
    (captured : ((List.range node.inputs.length).map (Inlet.mk id)).mapM g.connectedProducer =
      .ok sources) : sources = operands := by
  have pairs := Checked.mapM_eq_ok.mp captured
  have lengths := pairs.length_eq
  simp only [connected, List.length_map, List.length_range] at lengths
  apply List.ext_getElem lengths.symm
  intro index inside insideOperands
  have reads := connectedProducer_eq_ok.mp
    ((List.forall₂_iff_get.mp pairs).2 index (by simpa [connected] using insideOperands) inside)
  rcases reads_iff.mp reads with ⟨again, foundAgain, entry⟩
  simp only [List.get_eq_getElem, List.getElem_map, List.getElem_range] at foundAgain entry
  rcases Option.some.inj (found.symm.trans foundAgain) with rfl
  rw [connected, List.getElem?_map, List.getElem?_eq_getElem insideOperands] at entry
  exact (Option.some.inj (Option.some.inj entry)).symm

end Graph

namespace Region

variable {g : Graph} {region : Region} {sources : List Outlet}

/-- Nothing that a replaceable region reads depends on it. -/
theorem Replaceable.independent (replaceable : region.Replaceable g)
    (captured : region.inputs.mapM g.connectedProducer = .ok sources) :
    ∀ source ∈ sources, ∀ id ∈ region.nodes, ¬ g.Depends source.node id := by
  intro source member
  rcases Checked.exists_of_mem_mapM captured member with ⟨inlet, listed, found⟩
  rcases replaceable.entering inlet listed with ⟨outlet, reads, independent⟩
  rcases Graph.reads_unique reads (Graph.connectedProducer_eq_ok.mp found) with rfl
  exact independent

theorem Replaceable.lt_size (replaceable : region.Replaceable g) :
    ∀ id ∈ region.nodes, id < g.slots.size := by
  intro id member
  rcases replaceable.admitted id member with ⟨node, found, _⟩
  exact Graph.lt_size_of_node? found

theorem single_eq_some {id : Nat} (recognized : single g id = some region) :
    ∃ node, g.node? id = some node ∧ region.nodes = [id] ∧
      region.inputs = (List.range node.inputs.length).map (Inlet.mk id) ∧
      region.outputs = [⟨id, 0⟩] := by
  simp only [single, Option.bind_eq_bind, Option.bind_eq_some_iff] at recognized
  rcases recognized with ⟨node, found, same⟩
  rcases Option.some.inj same with rfl
  exact ⟨node, found, rfl, rfl, rfl⟩

/-- If the second node of a chain reads the first and nothing else, then the
chain reads what its first node reads. -/
theorem chain_eq_some {second : Nat} {node : Node} {outlet : Outlet}
    (recognized : chain g outlet.node second = some region) (found : g.node? second = some node)
    (connected : node.inputs = [some outlet]) :
    ∃ first, g.node? outlet.node = some first ∧ region.nodes = [outlet.node, second] ∧
      region.inputs = (List.range first.inputs.length).map (Inlet.mk outlet.node) ∧
      region.outputs = [⟨second, 0⟩] := by
  simp only [chain, Option.bind_eq_bind, Option.bind_eq_some_iff] at recognized
  rcases recognized with ⟨first, firstFound, again, foundAgain, same⟩
  rcases Option.some.inj (found.symm.trans foundAgain) with rfl
  rcases Option.some.inj same with rfl
  exact ⟨first, firstFound, rfl, by simp [inletsPast, connected], rfl⟩

end Region

/-! ## Standing for an outlet -/

variable {α : DataType → Type}

open Interpretation (Fits)

/-- An outlet of a graph built beside a region carries the value of an outlet of
the region. -/
structure Substitutes (I : Interpretation α) (g : Graph) (region : Region) (old new : Outlet)
    (built : Graph) : Prop where
  beside : g.Extends region.nodes built
  valid : built.Valid
  outputs : built.outputs = g.outputs
  independent : ∀ id ∈ region.nodes, ¬ built.Depends new.node id
  typed : ∃ type, g.outputType old = .ok type ∧ built.outputType new = .ok type
  fits : ∀ assign : Nat → Tensor α, Fits assign g → Fits assign built
  same : ∀ assign values, Fits assign g → I.Solves assign built values →
    values new.node = values old.node

namespace Substitutes

variable {I : Interpretation α} {g built : Graph} {region : Region} {old new : Outlet}

/-- Something that the region reads stands for its result. -/
theorem source (valid : g.Valid) (replaceable : region.Replaceable g)
    (independent : ∀ id ∈ region.nodes, ¬ g.Depends new.node id) {type : TensorType}
    (oldTyped : g.outputType old = .ok type) (newTyped : g.outputType new = .ok type)
    (same : ∀ assign values, Fits assign g → I.Solves assign g values →
      values new.node = values old.node) : Substitutes I g region old new g where
  beside := ⟨.start valid.acyclic replaceable.lt_size, valid.linked⟩
  valid := valid
  outputs := rfl
  independent := independent
  typed := ⟨type, oldTyped, newTyped⟩
  fits _ fits := fits
  same := same

/-- A new node on what the region reads stands for its result. -/
theorem node {node : Node} {operands : List Outlet} {types : List TensorType} {result : TensorType}
    (valid : g.Valid) (replaceable : region.Replaceable g) (appended : g.Appended node built)
    (signature : node.signature = ⟨node.op, operands.map some, [result]⟩)
    (typed : g.TypesAt operands types) (accepted : node.op.HasTypes types [result])
    (takes : node.op.inputCount ≠ 0) (oldTyped : g.outputType old = .ok result)
    (independent : ∀ source ∈ operands, ∀ id ∈ region.nodes, ¬ g.Depends source.node id)
    (same : ∀ assign values, Fits assign g → I.Solves assign g values →
      I.result assign g.slots.size node.op (operands.map fun source => values source.node) =
        values old.node) :
    Substitutes I g region old ⟨g.slots.size, 0⟩ built := by
  rcases Signature.mk.inj signature with ⟨_, connected, results⟩
  have beside : g.Extends region.nodes built := by
    refine ⟨appended.enlarges replaceable.lt_size ?_, appended.links.linked valid.linked⟩
    intro source listed id member depends
    rw [connected] at listed
    rcases List.mem_map.mp listed with ⟨_, operand, same⟩
    rcases Option.some.inj same with rfl
    exact independent _ operand id member
      ((appended.enlarges_nil.depends_old valid.linked.faithful (typed.lt_size operand)).mp depends)
  rcases appended.exists_new_signature with ⟨added, found, addedSignature⟩
  refine ⟨beside, valid.append appended ⟨operands, types, connected, typed, results ▸ accepted⟩, ?_,
    fun id member => beside.independent _ (Nat.le_refl _) id member, ⟨result, oldTyped, ?_⟩, ?_, ?_⟩
  · rw [appended.outputs, Graph.push, if_neg]
    intro isOutput
    rw [isOutput] at accepted
    exact Nat.one_ne_zero accepted.counts.2
  · refine Graph.outputType_iff.mpr ⟨added, found, ?_⟩
    rw [addedSignature, signature]
    rfl
  · intro assign fits
    apply fits.of_nodes
    intro id now nowFound none
    rcases appended.node_cases nowFound with ⟨_, before, foundBefore, same⟩ | ⟨_, same⟩
    · exact ⟨before, foundBefore, congrArg Signature.op same.symm,
        congrArg Signature.results same.symm⟩
    · have op : now.op = node.op := congrArg Signature.op same
      exact absurd (op ▸ none) takes
  · intro assign values fits solves
    rcases Signature.mk.inj addedSignature with ⟨op, inputs, _⟩
    rw [solves g.slots.size added found, op, Graph.producers_eq (inputs.trans connected)]
    exact same assign values fits (solves.restrict beside)

/-- An operator that suits what the region reads can be applied to it, and the
new node stands for the result of the region if it has the same value. -/
theorem exists_applies {op : Operator} {sources : List Outlet} {types : List TensorType}
    {result : TensorType} (valid : g.Valid) (replaceable : region.Replaceable g)
    (captured : region.inputs.mapM g.connectedProducer = .ok sources)
    (typed : g.TypesAt sources types) (accepted : op.HasTypes types [result])
    (takes : op.inputCount ≠ 0) (oldTyped : g.outputType old = .ok result)
    (same : ∀ assign values, Fits assign g → I.Solves assign g values →
      I.result assign g.slots.size op (sources.map fun source => values source.node) =
        values old.node) :
    ∃ built, g.Applies op sources ⟨g.slots.size, 0⟩ built ∧
      Substitutes I g region old ⟨g.slots.size, 0⟩ built := by
  rcases valid.exists_applies typed accepted with ⟨name, built, applies, appended⟩
  refine ⟨built, applies, ?_⟩
  exact .node valid replaceable appended rfl typed accepted takes oldTyped
    (replaceable.independent captured) same

end Substitutes

end TensorCompiler
