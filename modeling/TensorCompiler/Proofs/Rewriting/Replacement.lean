import TensorCompiler.Proofs.Construction.Builders
import TensorCompiler.Proofs.Graph.Sweeping
import TensorCompiler.Rule.Transpose

namespace TensorCompiler

/-!
# Replacing a region

A region that passes the check can be replaced by anything that is built beside
it and does not depend on it.  Every reader of one of its results moves to the
replacement without closing a cycle, the rest of the graph stays as it was, and
after the next sweep the region is gone.
-/

/-! ## Regions that pass the check -/

namespace Region

/-- What the check of a region establishes. -/
structure Replaceable (region : Region) (g : Graph) : Prop where
  distinct : region.outputs.Nodup
  inside : ∀ outlet ∈ region.outputs, outlet.node ∈ region.nodes
  admitted : ∀ id ∈ region.nodes, ∃ node, g.node? id = some node ∧ node.op ≠ .output
  leaving : ∀ outlet, outlet.node ∈ region.nodes → outlet ∉ region.outputs →
    ∀ inlet, g.Reads inlet outlet → inlet.node ∈ region.nodes
  entering : ∀ inlet ∈ region.inputs, ∃ outlet, g.Reads inlet outlet ∧
    ∀ id ∈ region.nodes, ¬ g.Depends outlet.node id

variable {region : Region} {g : Graph}

/-- A result that is not listed has no reader outside. -/
theorem leaving_of_outputsListed (linked : g.Linked) {outlet : Outlet} {node : Node}
    (found : g.node? outlet.node = some node)
    (listed : region.outputsListed outlet.node node = true) (unlisted : outlet ∉ region.outputs)
    {inlet : Inlet} (reads : g.Reads inlet outlet) : inlet.node ∈ region.nodes := by
  rcases linked.exists_wire reads with ⟨wire, wired, member⟩
  rcases Graph.wire_eq_ok.mp wired with ⟨again, foundAgain, entry⟩
  rcases Option.some.inj (found.symm.trans foundAgain) with rfl
  have position : (wire, outlet.index) ∈ node.outputs.zipIdx :=
    List.mk_mem_zipIdx_iff_getElem?.mpr entry
  have either := List.all_eq_true.mp listed _ position
  simp only [Bool.or_eq_true, List.contains_iff_mem, List.all_eq_true] at either
  exact either.resolve_left unlisted inlet member

/-- What the check of a region establishes, however the links are. -/
structure Bounded (region : Region) (g : Graph) : Prop where
  nonempty : region.nodes ≠ []
  unique : region.nodes.Nodup
  distinct : region.outputs.Nodup
  inside : ∀ outlet ∈ region.outputs, outlet.node ∈ region.nodes
  admitted : ∀ id ∈ region.nodes, ∃ node, g.node? id = some node ∧ node.op ≠ .output ∧
    region.outputsListed id node = true
  entering : ∀ inlet ∈ region.inputs, ∃ outlet, g.Reads inlet outlet ∧
    ∀ id ∈ region.nodes, ¬ g.Depends outlet.node id

theorem bounded_of_isReplaceable (checked : region.isReplaceable g = true) :
    region.Bounded g := by
  simp only [isReplaceable, Bool.and_eq_true, List.all_eq_true, List.contains_iff_mem,
    decide_eq_true_eq, Bool.not_eq_true', List.isEmpty_eq_false_iff] at checked
  rcases checked with ⟨⟨⟨⟨⟨⟨nonempty, unique⟩, _⟩, distinct⟩, inside⟩, admitted⟩, before⟩
  have nodes : ∀ id ∈ region.nodes, ∃ node, g.node? id = some node ∧ node.op ≠ .output ∧
      region.outputsListed id node = true := by
    intro id member
    have admitsNode := admitted id member
    unfold admits at admitsNode
    split at admitsNode
    · next node found =>
      simp only [Bool.and_eq_true, bne_iff_ne] at admitsNode
      exact ⟨node, found, admitsNode.1.1, admitsNode.2⟩
    · cases admitsNode
  refine ⟨nonempty, unique, distinct, inside, nodes, ?_⟩
  intro inlet member
  have reads := before inlet member
  unfold readsFromBefore at reads
  split at reads
  · next outlet found =>
    refine ⟨outlet, found, ?_⟩
    intro id inRegion depends
    have independent := List.all_eq_true.mp reads id inRegion
    rw [Graph.dependsOn_iff.mpr depends] at independent
    cases independent
  · cases reads

/-- An input of a node of the region is listed exactly if it reads from outside. -/
theorem mem_inputs_iff_of_reads (checked : region.isReplaceable g = true) {inlet : Inlet}
    {outlet : Outlet} (member : inlet.node ∈ region.nodes) (reads : g.Reads inlet outlet) :
    inlet ∈ region.inputs ↔ outlet.node ∉ region.nodes := by
  simp only [isReplaceable, Bool.and_eq_true, List.all_eq_true] at checked
  have admitted := checked.1.2 inlet.node member
  rcases Graph.reads_iff.mp reads with ⟨node, found, entry⟩
  simp only [admits, found, Bool.and_eq_true] at admitted
  have position : (some outlet, inlet.index) ∈ node.inputs.zipIdx :=
    List.mk_mem_zipIdx_iff_getElem?.mpr entry
  have exactly := List.all_eq_true.mp admitted.1.2 _ position
  by_cases inside : outlet.node ∈ region.nodes <;> simpa [inside] using exactly

theorem isReplaceable_of_bounded (bounded : region.Bounded g) (distinct : region.inputs.Nodup)
    (listed : ∀ id ∈ region.nodes, ∀ node, g.node? id = some node →
      region.inputsListed id node = true) : region.isReplaceable g = true := by
  simp only [isReplaceable, Bool.and_eq_true, List.all_eq_true, List.contains_iff_mem,
    decide_eq_true_eq, Bool.not_eq_true', List.isEmpty_eq_false_iff]
  refine ⟨⟨⟨⟨⟨⟨bounded.nonempty, bounded.unique⟩, distinct⟩, bounded.distinct⟩, bounded.inside⟩,
    ?_⟩, ?_⟩
  · intro id member
    obtain ⟨node, found, notOutput, outputsListed⟩ := bounded.admitted id member
    simp only [admits, found, Bool.and_eq_true, bne_iff_ne]
    exact ⟨⟨notOutput, listed id member node found⟩, outputsListed⟩
  · intro inlet member
    obtain ⟨outlet, reads, before⟩ := bounded.entering inlet member
    simp only [readsFromBefore, show g.producer inlet = .ok (some outlet) from reads,
      List.all_eq_true, Bool.not_eq_true']
    intro id inRegion
    apply eq_false_of_ne_true
    intro depends
    exact before id inRegion (Graph.dependsOn_iff.mp depends)

theorem Bounded.replaceable (bounded : region.Bounded g) (linked : g.Linked) :
    region.Replaceable g where
  distinct := bounded.distinct
  inside := bounded.inside
  admitted := by
    intro id member
    rcases bounded.admitted id member with ⟨node, found, notOutput, _⟩
    exact ⟨node, found, notOutput⟩
  leaving := by
    intro outlet member unlisted inlet reads
    rcases bounded.admitted outlet.node member with ⟨node, found, _, listed⟩
    exact leaving_of_outputsListed linked found listed unlisted reads
  entering := bounded.entering

theorem replaceable_of_isReplaceable (linked : g.Linked)
    (checked : region.isReplaceable g = true) : region.Replaceable g :=
  (bounded_of_isReplaceable checked).replaceable linked

end Region

namespace Work

variable {α : Type} {bench after : Workbench} {value : α}

@[simp] theorem edit_eq_ok {change : Edit α} :
    edit change bench = .ok value after ↔
      change bench.graph = .ok value after.graph ∧ after.journal = bench.journal := by
  rcases after with ⟨graph, journal⟩
  unfold edit
  cases change bench.graph with
  | ok result changed => simp [and_assoc, eq_comm (a := journal)]
  | error failure changed => simp

@[simp] theorem recorded_eq_ok {run : Recorded α} :
    recorded run bench = .ok value after ↔
      run bench.journal = .ok value after.journal ∧ after.graph = bench.graph := by
  rcases after with ⟨graph, journal⟩
  unfold recorded
  cases run bench.journal with
  | ok result changed => simp [and_comm, and_left_comm, eq_comm (a := graph)]
  | error failure changed => simp

@[simp] theorem note_eq_ok {events : List Event} {done : Unit} :
    note events bench = .ok done after ↔
      after.graph = bench.graph ∧ after.journal = bench.journal ++ events.toArray := by
  rcases after with ⟨graph, journal⟩
  rw [note, Stateful.modify_eq_ok]
  simp [eq_comm (a := graph), eq_comm (a := journal)]

end Work

namespace Rule

/-! ## Applying a rule -/

/-- A rule builds replacements for the results of a region, beside it and
independent of it. -/
structure Builds (rule : Rule) (g : Graph) (region : Region) (sources replacements : List Outlet)
    (built : Graph) : Prop where
  done : rule.build ⟨region, sources⟩ g = .ok replacements built
  grown : g.Grown region.nodes built
  count : replacements.length = region.outputs.length
  types : ∀ pair ∈ region.outputs.zip replacements,
    built.outputType pair.2 = g.outputType pair.1
  independent : ∀ pair ∈ region.outputs.zip replacements,
    ∀ id ∈ region.nodes, ¬ built.Depends pair.2.node id

/-- The graph after a region has been replaced. -/
structure Replaced (g : Graph) (region : Region) (replacements : List Outlet)
    (built after : Graph) : Prop where
  /-- Whoever read a result of the region reads its replacement. -/
  moved : ∀ pair ∈ region.outputs.zip replacements, ∀ inlet, g.Reads inlet pair.1 →
    after.Reads inlet pair.2
  linked : after.Linked
  acyclic : after.Acyclic
  /-- But for links nothing changes once the replacements are built. -/
  same : built.SameNodes after
  /-- Every node is still there, old or new, and reads what it did apart from
  the results of the region. -/
  kept : ∀ id node, g.node? id = some node ∨ (g.slots.size ≤ id ∧ built.node? id = some node) →
    ∃ now, after.node? id = some now ∧ now.unlinked = node.unlinked ∧
      now.inputs = node.inputs.map (Option.map (redirected (region.outputs.zip replacements)))
  /-- A sweep removes the region and leaves nothing that reads it. -/
  swept : ∃ removed swept, Graph.removeUnreachable after = .ok removed swept ∧
    (∀ id ∈ region.nodes, swept.node? id = none) ∧
    (∀ inlet outlet, swept.Reads inlet outlet → outlet.node ∉ region.nodes) ∧
    ∀ id node, swept.node? id = some node → ∃ before, after.node? id = some before ∧
      node.unread = before.unread

section

variable {g built : Graph} {region : Region} {sources replacements : List Outlet} {rule : Rule}

/-- Every listed inlet reads something, so what a region reads can be looked
up. -/
theorem capture_eq_ok (replaceable : region.Replaceable g) :
    ∃ sources, region.inputs.mapM g.connectedProducer = .ok sources := by
  apply Checked.exists_mapM_eq_ok
  intro inlet member
  rcases replaceable.entering inlet member with ⟨outlet, reads, _⟩
  exact ⟨outlet, Graph.connectedProducer_eq_ok.mpr reads⟩

theorem checkTypes_eq_ok {name : String} {pairs : List (Outlet × Outlet)} {after : Graph} :
    checkTypes name pairs g = .ok () after ↔
      after = g ∧ ∀ pair ∈ pairs, ∃ type,
        g.outputType pair.1 = .ok type ∧ g.outputType pair.2 = .ok type := by
  induction pairs with
  | nil => simp [checkTypes, eq_comm]
  | cons pair rest inductionHypothesis =>
      rcases pair with ⟨old, new⟩
      simp only [checkTypes, Stateful.bind_eq_ok, Edit.ask_eq_ok, List.forall_mem_cons]
      constructor
      · rintro ⟨oldType, _, ⟨oldTyped, rfl⟩, newType, _, ⟨newTyped, rfl⟩, rest⟩
        split at rest
        · next same =>
          rcases inductionHypothesis.mp rest with ⟨unchanged, others⟩
          exact ⟨unchanged, ⟨oldType, oldTyped, same ▸ newTyped⟩, others⟩
        · exact absurd rest Stateful.refuse_ne_ok
      · rintro ⟨unchanged, ⟨type, oldTyped, newTyped⟩, others⟩
        refine ⟨type, g, ⟨oldTyped, rfl⟩, type, g, ⟨newTyped, rfl⟩, ?_⟩
        rw [if_pos rfl]
        exact inductionHypothesis.mpr ⟨unchanged, others⟩

theorem install_eq_ok {name : String} {after : Graph} :
    install name region replacements g = .ok () after ↔
      replacements.length = region.outputs.length ∧
      (∀ pair ∈ region.outputs.zip replacements, ∃ type,
        g.outputType pair.1 = .ok type ∧ g.outputType pair.2 = .ok type) ∧
      moveReaders (region.outputs.zip replacements) g = .ok () after := by
  unfold install
  split
  · next count =>
    simp only [Stateful.bind_eq_ok, count, true_and]
    constructor
    · rintro ⟨_, _, checked, moved⟩
      rcases checkTypes_eq_ok.mp checked with ⟨rfl, typed⟩
      exact ⟨typed, moved⟩
    · rintro ⟨typed, moved⟩
      exact ⟨(), g, checkTypes_eq_ok.mpr ⟨rfl, typed⟩, moved⟩
  · next wrong => simp [wrong]

theorem apply_eq_ok {journal : Journal} {after : Workbench} :
    rule.apply region ⟨g, journal⟩ = .ok () after ↔
      ∃ sources replacements built, region.inputs.mapM g.connectedProducer = .ok sources ∧
        rule.build ⟨region, sources⟩ g = .ok replacements built ∧
        install rule.name region replacements built = .ok () after.graph ∧
        after.journal = journal ++ (rule.remarks ⟨region, sources⟩).toArray := by
  simp only [apply, capture, Stateful.bind_eq_ok, Work.edit_eq_ok, Work.note_eq_ok,
    Edit.ask_eq_ok, Stateful.pure_eq_ok]
  constructor
  · rintro ⟨_, first, ⟨⟨sources, _, ⟨captured, rfl⟩, rfl, sameGraph⟩, sameJournal⟩, replacements,
      second, ⟨built, builtJournal⟩, _, third, ⟨notedGraph, notedJournal⟩, installed, lastJournal⟩
    rw [← sameGraph] at built
    rw [notedGraph] at installed
    rw [lastJournal, notedJournal, builtJournal, sameJournal]
    exact ⟨sources, replacements, second.graph, captured, built, installed, rfl⟩
  · rintro ⟨sources, replacements, built, captured, done, installed, journalAfter⟩
    exact ⟨_, ⟨g, journal⟩, ⟨⟨sources, g, ⟨captured, rfl⟩, rfl, rfl⟩, rfl⟩, replacements,
      ⟨built, journal⟩, ⟨done, rfl⟩, (), ⟨built, after.journal⟩, ⟨rfl, journalAfter⟩, installed,
      rfl⟩

/-! ## The effect of a replacement -/

/-- If every inlet reads a function of what it read, the inputs of a node are
mapped. -/
theorem inputs_eq_map {h : Graph} {id : Nat} {node now : Node} {change : Outlet → Outlet}
    (found : g.node? id = some node) (present : h.node? id = some now)
    (unlinked : now.unlinked = node.unlinked)
    (reads : ∀ inlet outlet, inlet.node = id → (h.Reads inlet outlet ↔
      ∃ before, g.Reads inlet before ∧ outlet = change before)) :
    now.inputs = node.inputs.map (Option.map change) := by
  have lengths := congrArg (fun node => node.inputs.length) unlinked
  simp only [Node.unlinked, List.length_map] at lengths
  have readsNow : ∀ (index : Nat) outlet, now.inputs[index]? = some (some outlet) ↔
      ∃ before, node.inputs[index]? = some (some before) ∧ outlet = change before := by
    intro index outlet
    have here := reads ⟨id, index⟩ outlet rfl
    simpa only [Graph.reads_iff, found, present, Option.some.injEq, exists_eq_left'] using here
  apply List.ext_getElem?
  intro index
  rw [List.getElem?_map]
  cases before : node.inputs[index]? with
  | none =>
      rw [List.getElem?_eq_none_iff] at before
      rw [List.getElem?_eq_none_iff.mpr (lengths ▸ before)]
      rfl
  | some source =>
      cases source with
      | some outlet => exact (readsNow index _).mpr ⟨outlet, before, rfl⟩
      | none =>
          have inside : index < now.inputs.length :=
            lengths ▸ (List.getElem?_eq_some_iff.mp before).1
          rw [List.getElem?_eq_getElem inside]
          cases entry : now.inputs[index] with
          | none => rfl
          | some outlet =>
              have both := (readsNow index outlet).mp (by
                rw [List.getElem?_eq_getElem inside, entry])
              rw [before] at both
              rcases both with ⟨_, impossible, _⟩
              cases impossible

/-- What a region reads from outside can always stand in for its results. -/
theorem entering_independent (linked : g.Linked) (replaceable : region.Replaceable g)
    (growth : g.Extends region.nodes built) {inlet : Inlet} (member : inlet ∈ region.inputs)
    {outlet : Outlet} (reads : g.Reads inlet outlet) :
    (∃ wire, built.wire outlet = .ok wire) ∧
      ∀ id ∈ region.nodes, ¬ built.Depends outlet.node id := by
  rcases replaceable.entering inlet member with ⟨again, readsAgain, independent⟩
  rcases Graph.reads_unique reads readsAgain with rfl
  rcases linked.exists_wire reads with ⟨wire, wired, _⟩
  rcases Graph.wire_eq_ok.mp wired with ⟨node, found, _⟩
  rcases growth.exists_wire wired with ⟨kept, keptWired, _⟩
  refine ⟨⟨kept, keptWired⟩, ?_⟩
  intro id inRegion depends
  exact independent id inRegion
    ((growth.depends_old linked.faithful (Graph.lt_size_of_node? found)).mp depends)

/-- After the readers have moved, only the region itself reads the region. -/
theorem downstream_region {after : Graph} (replaceable : region.Replaceable g)
    (growth : g.Extends region.nodes built)
    (count : replacements.length = region.outputs.length)
    (independent : ∀ pair ∈ region.outputs.zip replacements,
      ∀ id ∈ region.nodes, ¬ built.Depends pair.2.node id)
    (reads : ∀ inlet outlet, after.Reads inlet outlet ↔ ∃ before, built.Reads inlet before ∧
      outlet = redirected (region.outputs.zip replacements) before) :
    after.Downstream (· ∈ region.nodes) := by
  intro id source needs inRegion
  rcases Graph.needs_iff.mp needs with ⟨index, port, readsAfter⟩
  rcases (reads _ _).mp readsAfter with ⟨before, readsBefore, same⟩
  rcases redirected_cases (region.outputs.zip replacements) before with moved | ⟨stays, others⟩
  · -- A replacement does not belong to the region.
    rw [← same] at moved
    exact absurd .refl (independent _ moved source inRegion)
  · rw [stays] at same
    subst same
    have unlisted : (⟨source, port⟩ : Outlet) ∉ region.outputs := by
      intro listed
      rcases List.getElem?_of_mem listed with ⟨position, entry⟩
      have inside : position < replacements.length :=
        count ▸ (List.getElem?_eq_some_iff.mp entry).1
      have paired : (⟨source, port⟩, replacements[position]) ∈ region.outputs.zip replacements :=
        List.mem_of_getElem? (List.getElem?_zip_eq_some.mpr
          ⟨entry, List.getElem?_eq_getElem inside⟩)
      exact others _ paired rfl
    -- A new node does not read the region either, so the reader is an old one.
    have old : id < g.slots.size := by
      by_contra isNew
      exact growth.independent id (Nat.le_of_not_lt isNew) source inRegion
        (.single readsBefore.needs)
    exact replaceable.leaving _ inRegion unlisted _ ((growth.reads_old old).mp readsBefore)

/-- A region that only the region itself reads is swept away: no declared output
belongs to it. -/
theorem swept_region {after : Graph} (declared : ∀ id ∈ g.outputs, g.op? id = some .output)
    (replaceable : region.Replaceable g) (growth : g.Extends region.nodes built)
    (same : built.SameNodes after) (closed : after.Downstream (· ∈ region.nodes)) :
    ∀ id ∈ region.nodes, after.swept.node? id = none := by
  intro id member
  by_contra survives
  rcases Option.ne_none_iff_exists'.mp survives with ⟨node, found⟩
  rcases Graph.contains_reachable.mp (Graph.node?_swept.mp found).1 with
    ⟨root, rootDeclared, depends⟩
  refine closed.not_late ?_ depends member
  intro rootInRegion
  rcases replaceable.admitted root rootInRegion with ⟨rootNode, rootFound, notOutput⟩
  rcases growth.declared with ⟨more, outputs, fresh⟩
  rw [same.outputs, outputs, List.mem_append] at rootDeclared
  rcases rootDeclared with old | new
  · have isOutput := declared root old
    rw [Graph.op?, rootFound] at isOutput
    exact notOutput (Option.some.inj isOutput)
  · exact absurd (Graph.lt_size_of_node? rootFound) (Nat.not_lt.mpr (fresh root new))

/-- The readers of a region can move to replacements that do not depend on it,
and then the region has been replaced. -/
theorem exists_replaced (declared : ∀ id ∈ g.outputs, g.op? id = some .output)
    (replaceable : region.Replaceable g)
    (exist : ∀ outlet ∈ region.outputs, ∃ wire, g.wire outlet = .ok wire)
    (growth : g.Extends region.nodes built)
    (count : replacements.length = region.outputs.length)
    (wired : ∀ pair ∈ region.outputs.zip replacements, ∃ wire, built.wire pair.2 = .ok wire)
    (independent : ∀ pair ∈ region.outputs.zip replacements,
      ∀ id ∈ region.nodes, ¬ built.Depends pair.2.node id) :
    ∃ after, moveReaders (region.outputs.zip replacements) built = .ok () after ∧
      Replaced g region replacements built after := by
  have early : ∀ pair ∈ region.outputs.zip replacements,
      ¬ built.Late region.nodes pair.2.node := by
    rintro pair member ⟨target, inRegion, depends⟩
    exact independent pair member target inRegion depends
  have bothWired : ∀ pair ∈ region.outputs.zip replacements,
      (∃ wire, built.wire pair.1 = .ok wire) ∧ ∃ wire, built.wire pair.2 = .ok wire := by
    intro pair member
    rcases exist pair.1 (List.of_mem_zip member).1 with ⟨wire, oldWired⟩
    rcases growth.exists_wire oldWired with ⟨kept, keptWired, _⟩
    exact ⟨⟨kept, keptWired⟩, wired pair member⟩
  rcases moveReaders_eq_ok growth.linked.faithful growth.acyclic
    (Graph.downstream_late built region.nodes)
    (fun pair member => Graph.Late.of_mem (replaceable.inside _ (List.of_mem_zip member).1)) early
    bothWired with ⟨after, moved, rewired⟩
  have same := rewired.nodes
  have afterLinked := rewired.keepsLinks.linked growth.linked
  have reads := fun inlet outlet => rewired.reads inlet outlet (growth.linked.not_orphan inlet)
  have closed := downstream_region replaceable growth count independent reads
  have keys : ((region.outputs.zip replacements).map Prod.fst).Nodup := by
    rw [List.map_fst_zip (Nat.le_of_eq count.symm)]
    exact replaceable.distinct
  have gone := swept_region declared replaceable growth same closed
  refine ⟨after, moved, ?_, afterLinked, rewired.acyclic, same, ?_, ?_⟩
  · intro pair member inlet readsOld
    rcases Graph.reads_iff.mp readsOld with ⟨node, found, _⟩
    refine (reads inlet pair.2).mpr ⟨pair.1, ?_, (redirected_of_mem keys member).symm⟩
    exact (growth.reads_old (Graph.lt_size_of_node? found)).mpr readsOld
  · intro id node old
    have inBuilt : ∃ kept, built.node? id = some kept ∧ kept.unlinked = node.unlinked ∧
        kept.inputs = node.inputs := by
      rcases old with found | ⟨_, found⟩
      · exact growth.exists_node found
      · exact ⟨node, found, rfl, rfl⟩
    rcases inBuilt with ⟨kept, found, keptUnlinked, keptInputs⟩
    rcases same.exists_node found with ⟨now, nowFound, nowUnlinked⟩
    refine ⟨now, nowFound, nowUnlinked.trans keptUnlinked, ?_⟩
    rw [← keptInputs]
    exact inputs_eq_map found nowFound nowUnlinked fun inlet outlet _ => reads inlet outlet
  · refine ⟨_, _, Graph.removeUnreachable_eq after, gone, ?_, ?_⟩
    · intro inlet outlet readsSwept inRegion
      rcases afterLinked.swept.exists_wire readsSwept with ⟨wire, wiredSwept, _⟩
      rcases Graph.wire_eq_ok.mp wiredSwept with ⟨node, found, _⟩
      rw [gone _ inRegion] at found
      cases found
    · intro id node found
      rcases Graph.node?_swept.mp found with ⟨_, before, foundBefore, rfl⟩
      refine ⟨before, foundBefore, ?_⟩
      simp only [Node.unread, List.map_map]
      rfl

/-- The nodes of the graph that was built are those of the old graph and new
ones, and all are kept. -/
theorem Replaced.exists_node {after : Graph} {id : Nat} {node : Node}
    (replaced : Replaced g region replacements built after) (growth : g.Extends region.nodes built)
    (found : built.node? id = some node) :
    ∃ now, after.node? id = some now ∧ now.unlinked = node.unlinked ∧
      now.inputs = node.inputs.map (Option.map (redirected (region.outputs.zip replacements))) := by
  by_cases old : id < g.slots.size
  · rcases Graph.exists_node_of_view (growth.old id old).symm found with ⟨before, foundBefore, same⟩
    rcases Node.unread_eq_iff.mp same with ⟨unlinked, inputs⟩
    rw [← unlinked, ← inputs]
    exact replaced.kept id before (Or.inl foundBefore)
  · exact replaced.kept id node (Or.inr ⟨Nat.le_of_not_lt old, found⟩)

/-- Applying a rule is safe.  If a region passes the check and its listed
results exist, and if the rule builds beside the region and hands over outlets
of the same types that do not depend on it, then the rule is applied without
fail and the region is replaced.  Among the outlets that a rule may hand over
are all those that the region reads from outside.

Only output nodes are declared as outputs, since nothing but adding such a node
declares one; no region that passes the check has one among its nodes. -/
theorem apply_replaces {journal : Journal} (linked : g.Linked) (acyclic : g.Acyclic)
    (declared : ∀ id ∈ g.outputs, g.op? id = some .output)
    (checked : region.isReplaceable g = true)
    (exist : ∀ outlet ∈ region.outputs, ∃ wire, g.wire outlet = .ok wire)
    (builds : ∀ sources, region.inputs.mapM g.connectedProducer = .ok sources →
      ∃ replacements built, rule.Builds g region sources replacements built) :
    ∃ sources replacements built after,
      region.inputs.mapM g.connectedProducer = .ok sources ∧
      rule.Builds g region sources replacements built ∧
      rule.apply region ⟨g, journal⟩ = .ok () after ∧
      Replaced g region replacements built after.graph ∧
      ∀ inlet ∈ region.inputs, ∃ outlet, g.Reads inlet outlet ∧
        (∃ wire, built.wire outlet = .ok wire) ∧
        ∀ id ∈ region.nodes, ¬ built.Depends outlet.node id := by
  have replaceable := Region.replaceable_of_isReplaceable linked checked
  rcases capture_eq_ok replaceable with ⟨sources, captured⟩
  rcases builds sources captured with ⟨replacements, built, building⟩
  have growth : g.Extends region.nodes built := by
    apply building.grown.extends linked acyclic
    intro id member
    rcases replaceable.admitted id member with ⟨node, found, _⟩
    exact Graph.lt_size_of_node? found
  -- A replacement has the type of the result it stands for, so both exist.
  have typed : ∀ pair ∈ region.outputs.zip replacements, ∃ type,
      built.outputType pair.1 = .ok type ∧ built.outputType pair.2 = .ok type := by
    intro pair member
    rcases exist pair.1 (List.of_mem_zip member).1 with ⟨wire, wired⟩
    rcases growth.exists_wire wired with ⟨kept, keptWired, unlinked⟩
    have sameType : kept.type = wire.type := congrArg (·.type) unlinked
    refine ⟨wire.type, Graph.outputType_eq_ok.mpr ⟨kept, keptWired, sameType⟩, ?_⟩
    rw [building.types pair member]
    exact Graph.outputType_eq_ok.mpr ⟨wire, wired, rfl⟩
  have wired : ∀ pair ∈ region.outputs.zip replacements, ∃ wire, built.wire pair.2 = .ok wire := by
    intro pair member
    rcases typed pair member with ⟨_, _, newTyped⟩
    rcases Graph.outputType_eq_ok.mp newTyped with ⟨wire, newWired, _⟩
    exact ⟨wire, newWired⟩
  rcases exists_replaced declared replaceable exist growth building.count wired
    building.independent with ⟨after, moved, replaced⟩
  have applied : rule.apply region ⟨g, journal⟩ =
      .ok () ⟨after, journal ++ (rule.remarks ⟨region, sources⟩).toArray⟩ :=
    apply_eq_ok.mpr ⟨sources, replacements, built, captured, building.done,
      install_eq_ok.mpr ⟨building.count, typed, moved⟩, rfl⟩
  refine ⟨sources, replacements, built, _, captured, building, applied, replaced, ?_⟩
  intro inlet member
  rcases replaceable.entering inlet member with ⟨outlet, reads, _⟩
  exact ⟨outlet, reads, entering_independent linked replaceable growth member reads⟩

end

/-! ## An application -/

/-- The two transposes of the small graph. -/
def turns : Region :=
  ⟨[1, 2], [⟨1, 0⟩], [⟨2, 0⟩]⟩

/-- The node that takes their place. -/
def unturning : Node :=
  Graph.freshNode (.transpose [0, 1]) "transpose_5" [⟨.f32, [2, 3]⟩]

/-- The small graph with this node beside the two transposes. -/
def unturned : Graph :=
  (Graph.rectified.push unturning).link ⟨5, 0⟩ ⟨0, 0⟩

theorem builds_unturned :
    foldTwoTransposes.Builds Graph.rectified turns [⟨0, 0⟩] [⟨5, 0⟩] unturned where
  done := rfl
  grown := by
    have added : Graph.addNode (.transpose [0, 1]) "transpose_5" [⟨.f32, [2, 3]⟩] Graph.rectified =
        .ok 5 (Graph.rectified.push unturning) := rfl
    have connected : Graph.connect ⟨5, 0⟩ ⟨0, 0⟩ (Graph.rectified.push unturning) =
        .ok () unturned := rfl
    refine .connect (.add .start added) (by decide) (Or.inr ?_) connected
    intro id member
    rw [← Graph.dependsOn_iff]
    revert id
    decide
  count := rfl
  types := by decide +kernel
  independent := by
    intro pair paired id member
    rw [← Graph.dependsOn_iff]
    revert pair id
    decide +kernel

/-- In the small graph two transposes make room for one. -/
theorem apply_replaces_turns :
    turns.isReplaceable Graph.rectified = true ∧
      ∃ sources replacements built after,
        turns.inputs.mapM Graph.rectified.connectedProducer = .ok sources ∧
        foldTwoTransposes.Builds Graph.rectified turns sources replacements built ∧
        foldTwoTransposes.apply turns ⟨Graph.rectified, #[]⟩ = .ok () after ∧
        Replaced Graph.rectified turns replacements built after.graph ∧
        ∀ inlet ∈ turns.inputs, ∃ outlet, Graph.rectified.Reads inlet outlet ∧
          (∃ wire, built.wire outlet = .ok wire) ∧
          ∀ id ∈ turns.nodes, ¬ built.Depends outlet.node id := by
  have valid := Graph.made_rectified.valid
  have checked : turns.isReplaceable Graph.rectified = true := by decide +kernel
  refine ⟨checked, apply_replaces valid.linked valid.acyclic valid.declared checked ?_ ?_⟩
  · intro outlet member
    rcases List.mem_singleton.mp member with rfl
    exact ⟨_, rfl⟩
  · intro sources captured
    have known : turns.inputs.mapM Graph.rectified.connectedProducer = .ok [⟨0, 0⟩] := rfl
    rcases Except.ok.inj (known.symm.trans captured) with rfl
    exact ⟨_, _, builds_unturned⟩

end Rule
end TensorCompiler
