import Mathlib.Data.List.Chain
import TensorCompiler.Proofs.Rewriting.Boundaries

namespace TensorCompiler

/-!
# Regions without detours

A replacement is put where a region was, so the region has to be closed in two ways.
Whoever reads one of its results belongs to it or reads a result that is listed.  And
whatever lies between two of its nodes belongs to it, however long the way from one to
the other is; otherwise that part of the graph would come to stand both before and after
the replacement.

The check looks at no path.  It only asks of each listed inlet whether what is read there
depends on the region.  This is enough since a path that leaves the region does so through
a listed inlet: a path that came back would make what is read there depend on the region.
-/

namespace Region

variable {g : Graph} {region : Region}

/-- The nodes of a region are there, each once, none of them a declared output and every
input of theirs connected; and what they produce is read inside or is listed. -/
structure SelfContained (region : Region) (g : Graph) : Prop where
  unique : region.nodes.Nodup
  complete : ∀ id ∈ region.nodes, ∃ node, g.node? id = some node ∧ node.op ≠ .output ∧
    ∀ source ∈ node.inputs, source.isSome = true
  leaving : ∀ inlet outlet, g.Reads inlet outlet → outlet.node ∈ region.nodes →
    inlet.node ∈ region.nodes ∨ outlet ∈ region.outputs

/-- A path from producer to producer that begins and ends in the region stays inside. -/
def Convex (region : Region) (g : Graph) : Prop :=
  ∀ start path, (start :: path).IsChain g.Needs → start ∈ region.nodes →
    (start :: path).getLast (List.cons_ne_nil start path) ∈ region.nodes →
      ∀ id ∈ path, id ∈ region.nodes

/-! ## What the check establishes -/

theorem isSome_of_isReplaceable (checked : region.isReplaceable g = true) {id : Nat} {node : Node}
    (member : id ∈ region.nodes) (found : g.node? id = some node) {source : Option Outlet}
    (input : source ∈ node.inputs) : source.isSome = true := by
  simp only [isReplaceable, Bool.and_eq_true, List.all_eq_true] at checked
  have admitted := checked.1.2 id member
  simp only [admits, found, Bool.and_eq_true] at admitted
  rcases List.mem_iff_getElem?.mp input with ⟨index, entry⟩
  have listed := List.all_eq_true.mp admitted.1.2 _ (List.mk_mem_zipIdx_iff_getElem?.mpr entry)
  cases source with
  | none => cases listed
  | some outlet => rfl

theorem selfContained_of_isReplaceable (linked : g.Linked)
    (checked : region.isReplaceable g = true) : region.SelfContained g where
  unique := (bounded_of_isReplaceable checked).unique
  complete := by
    intro id member
    rcases (bounded_of_isReplaceable checked).admitted id member with ⟨node, found, notOutput, _⟩
    exact ⟨node, found, notOutput, fun source => isSome_of_isReplaceable checked member found⟩
  leaving := by
    intro inlet outlet reads member
    by_cases listed : outlet ∈ region.outputs
    · exact Or.inr listed
    · left
      exact (replaceable_of_isReplaceable linked checked).leaving outlet member listed inlet reads

/-- Whatever the region depends on, and depends on the region, belongs to it. -/
theorem mem_nodes_of_depends (checked : region.isReplaceable g = true) {start middle stop : Nat}
    (down : g.Depends start middle) (back : g.Depends middle stop)
    (startInside : start ∈ region.nodes) (stopInside : stop ∈ region.nodes) :
    middle ∈ region.nodes := by
  induction down using Relation.ReflTransGen.head_induction_on with
  | refl => exact startInside
  | @head reader source needs rest inductionHypothesis =>
      by_cases sourceInside : source ∈ region.nodes
      · exact inductionHypothesis sourceInside
      · -- The path leaves the region here, through an inlet that has to be listed.
        rcases Graph.needs_iff.mp needs with ⟨index, port, reads⟩
        have listed : ⟨reader, index⟩ ∈ region.inputs :=
          (mem_inputs_iff_of_reads checked startInside reads).mpr sourceInside
        rcases (bounded_of_isReplaceable checked).entering _ listed with ⟨outlet, again, before⟩
        rcases Graph.reads_unique reads again with rfl
        exact absurd (rest.trans back) (before stop stopInside)

theorem convex_of_isReplaceable (checked : region.isReplaceable g = true) : region.Convex g := by
  intro start path chain startInside lastInside id member
  have down : g.Depends start id :=
    chain.cons_induction (g.Depends start) path (fun _ _ needs depends => depends.tail needs) .refl
      id member
  have back : g.Depends id ((start :: path).getLast (List.cons_ne_nil start path)) :=
    chain.backwards_cons_induction (g.Depends · _) path rfl
      (fun _ _ needs depends => .head needs depends) .refl id (List.mem_cons_of_mem start member)
  exact mem_nodes_of_depends checked down back startInside lastInside

/-! ## Nothing else is checked -/

/-- What a convex region reads from outside does not depend on it. -/
theorem Convex.not_depends (convex : region.Convex g) {reader source id : Nat}
    (readerInside : reader ∈ region.nodes) (needs : g.Needs reader source)
    (outside : source ∉ region.nodes) (inside : id ∈ region.nodes) : ¬ g.Depends source id := by
  intro depends
  rcases List.exists_isChain_cons_of_relationReflTransGen depends with ⟨path, chain, last⟩
  apply outside
  apply convex reader (source :: path) (.cons_cons needs chain) readerInside
  · rw [List.getLast_cons_cons, last]
    exact inside
  · exact List.mem_cons_self

theorem SelfContained.outputsListed (contained : region.SelfContained g) (linked : g.Linked)
    {id : Nat} {node : Node} (member : id ∈ region.nodes) (found : g.node? id = some node) :
    region.outputsListed id node = true := by
  apply List.all_eq_true.mpr
  intro ⟨wire, index⟩ position
  have entry : node.outputs[index]? = some wire := List.mk_mem_zipIdx_iff_getElem?.mp position
  have wired : g.wire ⟨id, index⟩ = .ok wire := Graph.wire_eq_ok.mpr ⟨node, found, entry⟩
  by_cases listed : ⟨id, index⟩ ∈ region.outputs
  · simp [listed]
  · simp only [Bool.or_eq_true, List.all_eq_true, List.contains_iff_mem]
    right
    intro reader isReader
    have reads : g.Reads reader ⟨id, index⟩ := (linked.mem_readers wired reader).mp isReader
    exact (contained.leaving reader ⟨id, index⟩ reads member).resolve_right listed

theorem inputsListed_of_described (contained : region.SelfContained g)
    (described : region.Described g) {id : Nat} {node : Node} (member : id ∈ region.nodes)
    (found : g.node? id = some node) : region.inputsListed id node = true := by
  apply List.all_eq_true.mpr
  intro ⟨source, index⟩ position
  have entry : node.inputs[index]? = some source := List.mk_mem_zipIdx_iff_getElem?.mp position
  rcases contained.complete id member with ⟨again, foundAgain, _, connected⟩
  rcases Option.some.inj (found.symm.trans foundAgain) with rfl
  rcases Option.isSome_iff_exists.mp (connected source (List.mem_of_getElem? entry)) with
    ⟨outlet, rfl⟩
  have reads : g.Reads ⟨id, index⟩ outlet := Graph.reads_iff.mpr ⟨node, found, entry⟩
  have exactly : ⟨id, index⟩ ∈ region.inputs ↔ outlet.node ∉ region.nodes := by
    rw [described.inputs]
    constructor
    · intro enters
      rcases enters.2 with ⟨other, readsOther, outside⟩
      rcases Graph.reads_unique reads readsOther with rfl
      exact outside
    · intro outside
      exact ⟨member, outlet, reads, outside⟩
  by_cases outside : outlet.node ∈ region.nodes
  · simp [outside, exactly]
  · simp [outside, exactly]

theorem bounded_of_described (linked : g.Linked) (nonempty : region.nodes ≠ [])
    (distinct : region.outputs.Nodup) (described : region.Described g)
    (contained : region.SelfContained g) (convex : region.Convex g) : region.Bounded g where
  nonempty := nonempty
  unique := contained.unique
  distinct := distinct
  inside := fun outlet listed => (described.outputs outlet listed).1
  admitted := by
    intro id member
    rcases contained.complete id member with ⟨node, found, notOutput, _⟩
    exact ⟨node, found, notOutput, contained.outputsListed linked member found⟩
  entering := by
    intro inlet listed
    rcases (described.inputs inlet).mp listed with ⟨member, outlet, reads, outside⟩
    have needs : g.Needs inlet.node outlet.node := Graph.Reads.needs reads
    exact ⟨outlet, reads, fun id inside => convex.not_depends member needs outside inside⟩

/-- A region that passes the check is self-contained and has no detours.  Conversely, if its
lists are exact, no result is listed twice and it has a node at all, being self-contained
without detours is all that the check asks of it. -/
theorem selfContained_and_convex_of_isReplaceable (linked : g.Linked) :
    (region.isReplaceable g = true → region.SelfContained g ∧ region.Convex g) ∧
      (region.nodes ≠ [] → region.outputs.Nodup → region.Described g →
        region.SelfContained g → region.Convex g → region.isReplaceable g = true) := by
  constructor
  · intro checked
    exact ⟨selfContained_of_isReplaceable linked checked, convex_of_isReplaceable checked⟩
  · intro nonempty distinct described contained convex
    apply isReplaceable_of_bounded _ described.distinct
    · intro id member node found
      exact inputsListed_of_described contained described member found
    · exact bounded_of_described linked nonempty distinct described contained convex

/-- The two transposes of the small graph are self-contained and have no detours. -/
theorem selfContained_and_convex_turns :
    Graph.rectified.Linked ∧ Rule.turns.isReplaceable Graph.rectified = true ∧
      Rule.turns.SelfContained Graph.rectified ∧ Rule.turns.Convex Graph.rectified := by
  have linked : Graph.rectified.Linked := Graph.made_rectified.valid.linked
  have checked : Rule.turns.isReplaceable Graph.rectified = true := by decide +kernel
  exact ⟨linked, checked, (selfContained_and_convex_of_isReplaceable linked).1 checked⟩

/-- Without the second transpose, which lies between them, the first one and the rectifier are
refused. -/
example : (⟨[1, 3], [⟨1, 0⟩, ⟨3, 0⟩], [⟨1, 0⟩, ⟨3, 0⟩]⟩ : Region).isReplaceable
    Graph.rectified = false := by
  decide +kernel

end Region
end TensorCompiler
