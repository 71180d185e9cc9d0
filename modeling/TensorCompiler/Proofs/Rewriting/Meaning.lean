import TensorCompiler.Compile
import TensorCompiler.Proofs.Rewriting.Rules

namespace TensorCompiler

/-!
# Rewriting keeps the meaning of graphs

A graph means the values of its declared outputs, for every assignment of its
inputs and constants.  One application of a sound rule keeps them: whoever read
the replaced result reads the same value elsewhere, and the values of all other
nodes go on to satisfy their equations.  Sweeping removes nodes that no output
depends on.

Everything larger is a chain of such steps: a pass, whether or not it comes to
an end within its limit, a pipeline of passes, and the compilation for a host on
its own.
-/

variable {α : DataType → Type} {I : Interpretation α}

open Interpretation (Fits)

/-- One graph declares the outputs of another, with the same values. -/
structure Preserves (I : Interpretation α) (g h : Graph) : Prop where
  valid : h.Valid
  outputs : h.outputs = g.outputs
  values : ∀ assign : Nat → Tensor α, Fits assign g → Fits assign h ∧
    ∀ values, I.Solves assign g values → ∃ after, I.Solves assign h after ∧
      ∀ id ∈ g.outputs, after id = values id

namespace Preserves

variable {g h k : Graph}

theorem refl (valid : g.Valid) : Preserves I g g :=
  ⟨valid, rfl, fun _ fits => ⟨fits, fun values solves => ⟨values, solves, fun _ _ => rfl⟩⟩⟩

theorem trans (first : Preserves I g h) (second : Preserves I h k) : Preserves I g k where
  valid := second.valid
  outputs := second.outputs.trans first.outputs
  values := by
    intro assign fits
    rcases first.values assign fits with ⟨fitsBetween, throughFirst⟩
    rcases second.values assign fitsBetween with ⟨fitsAfter, throughSecond⟩
    refine ⟨fitsAfter, ?_⟩
    intro values solves
    rcases throughFirst values solves with ⟨between, solvesBetween, same⟩
    rcases throughSecond between solvesBetween with ⟨after, solvesAfter, sameAfter⟩
    refine ⟨after, solvesAfter, ?_⟩
    intro id declared
    rw [sameAfter id (first.outputs ▸ declared), same id declared]

/-- The evaluator finds the same values for both graphs. -/
theorem value_eq (preserves : Preserves I g h) (valid : g.Valid) {assign : Nat → Tensor α}
    (fits : Fits assign g) {id : Nat} (declared : id ∈ g.outputs) :
    ∃ value, I.value assign g id = some value ∧ I.value assign h id = some value := by
  rcases Interpretation.exists_solves I assign valid with ⟨values, solves⟩
  rcases (preserves.values assign fits).2 values solves with ⟨after, solvesAfter, same⟩
  rcases Option.map_eq_some_iff.mp (valid.declared id declared) with ⟨node, found, _⟩
  rcases Option.map_eq_some_iff.mp (preserves.valid.declared id (preserves.outputs ▸ declared)) with
    ⟨nodeAfter, foundAfter, _⟩
  refine ⟨values id, Interpretation.value_eq_some valid solves found, ?_⟩
  rw [Interpretation.value_eq_some preserves.valid solvesAfter foundAfter, same id declared]

/-! ## Changing what nodes read -/

/-- Nodes may read other outlets of the same types and values. -/
theorem redirect (change : Outlet → Outlet) (valid : g.Valid) (linked : h.Linked)
    (acyclic : h.Acyclic) (outputs : h.outputs = g.outputs)
    (kept : ∀ id ∈ g.outputs, ∃ now, h.node? id = some now)
    (nodes : ∀ id now, h.node? id = some now →
      ∃ before, g.node? id = some before ∧ Redirected g h change before now)
    (same : ∀ assign values, Fits assign g → I.Solves assign g values →
      ∀ source, values (change source).node = values source.node) : Preserves I g h where
  valid := valid.redirect linked acyclic outputs kept nodes
  outputs := outputs
  values := by
    intro assign fits
    refine ⟨fits.of_nodes ?_, ?_⟩
    · intro id now found _
      rcases nodes id now found with ⟨before, foundBefore, redirected⟩
      exact ⟨before, foundBefore, redirected.op, redirected.results⟩
    · intro values solves
      refine ⟨values, solves.of_nodes ?_, fun _ _ => rfl⟩
      intro id now found
      rcases nodes id now found with ⟨before, foundBefore, redirected⟩
      refine ⟨before, foundBefore, redirected.op, ?_⟩
      rw [redirected.producers, List.map_map]
      exact List.map_congr_left fun source _ => same assign values fits solves source

/-- Sweeping removes only nodes that no declared output depends on. -/
theorem sweep (valid : g.Valid) : Preserves I g g.swept := by
  have present : ∀ id ∈ g.outputs, ∃ node, g.node? id = some node := by
    intro id declared
    rcases Option.map_eq_some_iff.mp (valid.declared id declared) with ⟨node, found, _⟩
    exact ⟨node, found⟩
  have survives : ∀ {id node}, g.node? id = some node → g.reachable.contains id = true →
      ∃ now, g.swept.node? id = some now ∧ now.signature = node.signature := by
    intro id node found reached
    refine ⟨_, Graph.node?_swept.mpr ⟨reached, node, found, rfl⟩, ?_⟩
    simp [Node.signature, Function.comp_def, Graph.keepReaders]
  refine redirect (fun source => source) valid valid.linked.swept valid.acyclic.swept
    g.outputs_swept ?_ ?_ fun _ _ _ _ _ => rfl
  · intro id declared
    rcases present id declared with ⟨node, found⟩
    have reached := Graph.contains_reachable.mpr ⟨id, declared, .refl⟩
    rcases survives found reached with ⟨now, kept, _⟩
    exact ⟨now, kept⟩
  · intro id now found
    rcases Graph.node?_swept.mp found with ⟨reached, before, foundBefore, _⟩
    rcases survives foundBefore reached with ⟨again, foundAgain, signature⟩
    rcases Option.some.inj (found.symm.trans foundAgain) with rfl
    rcases Signature.mk.inj signature with ⟨op, inputs, results⟩
    refine ⟨before, foundBefore, op, results, by simpa using inputs, ?_⟩
    -- What a survivor reads survives.
    intro source member type typed
    rcases Graph.outputType_iff.mp typed with ⟨producer, producerFound, entry⟩
    have needs := Graph.needs_of_mem_producers foundBefore member
    rcases survives producerFound (Graph.reachable_closed reached needs) with
      ⟨kept, keptFound, keptSignature⟩
    exact Graph.outputType_iff.mpr ⟨kept, keptFound, keptSignature ▸ entry⟩

/-! ## Replacing -/

/-- What is built beside a region does not change any value. -/
theorem beside {region : Region} {old new : Outlet} {built : Graph} (valid : g.Valid)
    (substitutes : Substitutes I g region old new built) : Preserves I g built where
  valid := substitutes.valid
  outputs := substitutes.outputs
  values := by
    intro assign fits
    refine ⟨substitutes.fits assign fits, ?_⟩
    intro values solves
    rcases Interpretation.exists_solves I assign substitutes.valid with ⟨more, solvesBuilt⟩
    refine ⟨more, solvesBuilt, ?_⟩
    intro id declared
    rcases Option.map_eq_some_iff.mp (valid.declared id declared) with ⟨node, found, _⟩
    exact Interpretation.Solves.unique valid (solvesBuilt.restrict substitutes.beside) solves found

/-- Moving the readers of a result to an outlet that stands for it does not
change any value either. -/
theorem move {region : Region} {old new : Outlet} {built after : Graph}
    (substitutes : Substitutes I g region old new built) (boundary : region.outputs = [old])
    (replaced : Rule.Replaced g region [new] built after) : Preserves I built after := by
  have pairs : region.outputs.zip [new] = [(old, new)] := by rw [boundary]; rfl
  have change : ∀ source, Rule.redirected [(old, new)] source =
      if source = old then new else source :=
    fun source => Rule.redirected_cons (old, new) [] source
  refine redirect (Rule.redirected [(old, new)]) substitutes.valid replaced.linked
    replaced.acyclic replaced.same.outputs ?_ ?_ ?_
  · intro id declared
    rcases Option.map_eq_some_iff.mp (substitutes.valid.declared id declared) with ⟨node, found, _⟩
    rcases replaced.same.exists_node found with ⟨now, present, _⟩
    exact ⟨now, present⟩
  · intro id now found
    rcases replaced.same.symm.exists_node found with ⟨before, foundBefore, _⟩
    rcases replaced.exists_node substitutes.beside foundBefore with
      ⟨again, foundAgain, unlinked, inputs⟩
    rcases Option.some.inj (found.symm.trans foundAgain) with rfl
    rw [pairs] at inputs
    refine ⟨before, foundBefore, congrArg (·.op) unlinked, ?_, inputs, ?_⟩
    · simpa [Node.unlinked, Node.unread, Node.signature, Function.comp_def, Wire.unlinked] using
        congrArg (·.outputs.map Wire.type) unlinked
    · intro source _ type typed
      rw [change]
      split
      · next isOld =>
        rcases substitutes.typed with ⟨oldType, oldTyped, newTyped⟩
        rw [isOld, substitutes.beside.outputType oldTyped] at typed
        exact replaced.same.outputType (newTyped.trans typed)
      · exact replaced.same.outputType typed
  · intro assign values fits solves source
    rw [change]
    split
    · next isOld =>
      rw [isOld]
      exact substitutes.same assign values (fits.restrict substitutes.beside) solves
    · rfl

end Preserves

/-- What stands for the result of a region can be installed in its place. -/
theorem Substitutes.exists_install {g built : Graph} {region : Region} {old new : Outlet}
    (name : String) (valid : g.Valid) (replaceable : region.Replaceable g)
    (boundary : region.outputs = [old]) (substitutes : Substitutes I g region old new built) :
    ∃ after, Rule.install name region [new] built = .ok () after ∧ Preserves I g after := by
  rcases substitutes.typed with ⟨type, oldTyped, newTyped⟩
  have count : [new].length = region.outputs.length := by rw [boundary]; rfl
  have onlyPair : ∀ pair ∈ region.outputs.zip [new], pair = (old, new) := by
    intro pair member
    rw [boundary] at member
    exact List.mem_singleton.mp member
  obtain ⟨after, moved, replaced⟩ : ∃ after,
      Rule.moveReaders (region.outputs.zip [new]) built = .ok () after ∧
        Rule.Replaced g region [new] built after := by
    refine Rule.exists_replaced valid.declared replaceable ?_ substitutes.beside count ?_ ?_
    · intro outlet member
      rw [boundary] at member
      obtain ⟨wire, wired, _⟩ := Graph.outputType_eq_ok.mp oldTyped
      exact ⟨wire, List.mem_singleton.mp member ▸ wired⟩
    · intro pair member
      obtain ⟨wire, wired, _⟩ := Graph.outputType_eq_ok.mp newTyped
      exact ⟨wire, onlyPair pair member ▸ wired⟩
    · intro pair member
      rw [onlyPair pair member]
      exact substitutes.independent
  refine ⟨after, Rule.install_eq_ok.mpr ⟨count, ?_, moved⟩,
    (Preserves.beside valid substitutes).trans (.move substitutes boundary replaced)⟩
  intro pair member
  rw [onlyPair pair member]
  exact ⟨type, substitutes.beside.outputType oldTyped, newTyped⟩

/-- A sound rule can be applied to whatever region it recognizes. -/
theorem Rule.Sound.exists_apply {rule : Rule} {g : Graph} {region : Region} {id : Nat}
    {op : Operator} (sound : rule.Sound I) (valid : g.Valid) (operator : g.op? id = some op)
    (anchored : op.opcode ∈ rule.anchors) (recognized : rule.recognize g id = some region)
    (replaceable : region.Replaceable g) :
    region.nodes ≠ [] ∧ ∀ journal, ∃ after, rule.apply region ⟨g, journal⟩ = .ok () after ∧
      Preserves I g after.graph := by
  rcases Rule.capture_eq_ok replaceable with ⟨sources, captured⟩
  rcases sound valid operator anchored recognized replaceable captured with
    ⟨old, new, built, boundary, done, substitutes⟩
  rcases substitutes.exists_install rule.name valid replaceable boundary with
    ⟨after, installed, preserves⟩
  refine ⟨List.ne_nil_of_mem (replaceable.inside old (by simp [boundary])), ?_⟩
  intro journal
  refine ⟨⟨after, journal ++ (rule.remarks ⟨region, sources⟩).toArray⟩, ?_, preserves⟩
  exact Rule.apply_eq_ok.mpr ⟨sources, [new], built, captured, done, installed, rfl⟩

end TensorCompiler
