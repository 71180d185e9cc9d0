import TensorCompiler.Proofs.Construction.Sessions
import TensorCompiler.Proofs.Rewriting.Careful
import TensorCompiler.Proofs.Rewriting.Runs

namespace TensorCompiler

/-!
# What rewriting keeps up

Applying a rule has three parts: the rule builds, readers move, and the graph is
swept.  Each of them keeps the links, the declared outputs, the typing of all nodes
and the types that reach the declared outputs.  The rule may also fail after it has
built something, or be refused because a type does not fit; then the readers do not
move, and what it has built is well-typed on its own.

So a pass of careful rules keeps all of this up however it ends.  Two results follow
for the rules that come with the compiler: the two ends of a link agree after any
requests and runs in turn, and no run breaks the typing of a graph.
-/

namespace Graph

variable {g h k : Graph}

/-! ## Types at the ends -/

/-- A declared output reads a value of the given type. -/
def Feeds (g : Graph) (id : Nat) (type : TensorType) : Prop :=
  ∃ outlet, g.Reads ⟨id, 0⟩ outlet ∧ g.outputType outlet = .ok type

theorem TypesAt.exists_source {sources : List Outlet} {types : List TensorType} {index : Nat}
    {type : TensorType} (typed : g.TypesAt sources types) (entry : types[index]? = some type) :
    ∃ source, sources[index]? = some source ∧ g.outputType source = .ok type := by
  unfold TypesAt at typed
  induction typed generalizing index with
  | nil => cases entry
  | cons found _ inductionHypothesis =>
      cases index with
      | zero =>
          rcases Option.some.inj entry with rfl
          exact ⟨_, rfl, found⟩
      | succ index => exact inductionHypothesis entry

/-- In a well-typed graph something of some type reaches every declared output. -/
theorem Typed.exists_feeds (typed : g.Typed) {id : Nat} (isOutput : g.op? id = some .output) :
    ∃ type, g.Feeds id type := by
  rcases Option.map_eq_some_iff.mp isOutput with ⟨node, found, op⟩
  rcases typed id node found with ⟨sources, types, connected, operands, accepted⟩
  rw [op] at accepted
  generalize node.outputs.map Wire.type = results at accepted
  cases accepted with
  | @output type =>
      have first : [type][0]? = some type := rfl
      rcases operands.exists_source first with ⟨source, entry, sourceTyped⟩
      refine ⟨type, source, reads_iff.mpr ⟨node, found, ?_⟩, sourceTyped⟩
      rw [connected, List.getElem?_map, entry]
      rfl

/-- A node is well-typed if each of its inputs reads something of the right type. -/
theorem wellTyped_of_entries {node : Node} {types : List TensorType}
    (lengths : node.inputs.length = types.length)
    (entries : ∀ (index : Nat) type, types[index]? = some type →
      ∃ outlet, node.inputs[index]? = some (some outlet) ∧ g.outputType outlet = .ok type)
    (accepted : node.op.HasTypes types (node.outputs.map Wire.type)) : g.WellTyped node := by
  have connected : ∃ sources : List Outlet, node.inputs = sources.map some ∧
      g.TypesAt sources types := by
    clear accepted
    generalize node.inputs = inputs at lengths entries
    induction types generalizing inputs with
    | nil => exact ⟨[], List.length_eq_zero_iff.mp lengths, .nil⟩
    | cons type rest inductionHypothesis =>
        rcases List.exists_cons_of_length_eq_add_one lengths with ⟨input, others, rfl⟩
        rcases entries 0 type rfl with ⟨outlet, first, firstTyped⟩
        rcases inductionHypothesis others (Nat.succ.inj lengths)
          fun index type entry => entries (index + 1) type entry with
          ⟨sources, rfl, restTyped⟩
        rcases Option.some.inj first with rfl
        exact ⟨outlet :: sources, rfl, .cons firstTyped restTyped⟩
  rcases connected with ⟨sources, inputs, typed⟩
  exact ⟨sources, types, inputs, typed, accepted⟩

/-- A graph stays well-typed if every input goes on reading something of the type it
read, and the nodes are otherwise the same. -/
theorem Typed.of_supplies (typed : g.Typed)
    (nodes : ∀ id now, h.node? id = some now →
      ∃ before, g.node? id = some before ∧ now.unlinked = before.unlinked)
    (supplies : ∀ inlet outlet type, (∃ now, h.node? inlet.node = some now) →
      g.Reads inlet outlet → g.outputType outlet = .ok type →
      ∃ other, h.Reads inlet other ∧ h.outputType other = .ok type) : h.Typed := by
  intro id now found
  rcases nodes id now found with ⟨before, foundBefore, same⟩
  rcases typed id before foundBefore with ⟨sources, types, connected, operands, accepted⟩
  have op : now.op = before.op := by
    have operators : now.unlinked.op = before.unlinked.op := congrArg Node.op same
    exact operators
  have results : now.outputs.map Wire.type = before.outputs.map Wire.type := by
    have signatures := congrArg (fun node => node.outputs.map Wire.type) same
    simpa [Node.unlinked, Node.unread, Function.comp_def, Wire.unlinked] using signatures
  have lengths : now.inputs.length = before.inputs.length := by
    simpa [Node.unlinked] using congrArg (fun node => node.inputs.length) same
  apply wellTyped_of_entries
  · rw [lengths, connected, List.length_map]
    exact operands.length_eq
  · intro index type entry
    rcases operands.exists_source entry with ⟨source, present, sourceTyped⟩
    have reads : g.Reads ⟨id, index⟩ source := by
      refine reads_iff.mpr ⟨before, foundBefore, ?_⟩
      rw [connected, List.getElem?_map, present]
      rfl
    rcases supplies ⟨id, index⟩ source type ⟨now, found⟩ reads sourceTyped with
      ⟨other, readsOther, otherTyped⟩
    rcases reads_iff.mp readsOther with ⟨again, foundAgain, here⟩
    rcases Option.some.inj (found.symm.trans foundAgain) with rfl
    exact ⟨other, here, otherTyped⟩
  · rw [op, results]
    exact accepted

/-! ## What every part of a rewrite keeps -/

/-- One graph comes after another, with the same declared outputs; if it was
well-typed, it still is, and the same types reach the declared outputs. -/
structure Sustains (g h : Graph) : Prop extends EvolvesLinked g h where
  outputs : h.outputs = g.outputs
  typed : g.Typed → h.Typed
  feeds : ∀ id ∈ g.outputs, ∀ type, g.Feeds id type → h.Feeds id type

theorem Sustains.refl (intact : g.Intact) : g.Sustains g where
  toEvolvesLinked := .refl intact
  outputs := rfl
  typed := id
  feeds _ _ _ feeds := feeds

theorem Sustains.trans (first : g.Sustains h) (second : h.Sustains k) : g.Sustains k where
  toEvolvesLinked := first.toEvolvesLinked.trans second.toEvolvesLinked
  outputs := second.outputs.trans first.outputs
  typed := second.typed ∘ first.typed
  feeds id member type feeds :=
    second.feeds id (first.outputs ▸ member) type (first.feeds id member type feeds)

theorem Sustains.valid (sustains : g.Sustains h) (valid : g.Valid) : h.Valid where
  linked := sustains.linked valid.linked
  acyclic := sustains.intact.acyclic
  typed := sustains.typed valid.typed
  declared _ := sustains.intact.mem_outputs.mp

theorem Beside.sustains {matched : List Nat} {added : List Operator}
    (beside : g.Beside matched added h) : g.Sustains h where
  intact := beside.intact
  size := beside.size
  gone := by
    intro id inside gone
    have same := beside.old id inside
    rw [gone, Option.map_none] at same
    exact Option.map_eq_none_iff.mp same
  toKeepsLinks := beside.links
  outputs := beside.outputs
  typed := beside.typed
  feeds := by
    rintro id _ type ⟨outlet, reads, typed⟩
    exact ⟨outlet, (beside.reads_old reads.needs.lt_size).mpr reads,
      beside.toEnlarges.outputType typed⟩

theorem Rewired.supplies {change : Outlet → Outlet} (rewired : g.Rewired h change)
    (fits : ∀ outlet type, g.outputType outlet = .ok type →
      g.outputType (change outlet) = .ok type)
    {inlet : Inlet} {outlet : Outlet} {type : TensorType} (reads : g.Reads inlet outlet)
    (typed : g.outputType outlet = .ok type) :
    ∃ other, h.Reads inlet other ∧ h.outputType other = .ok type := by
  by_cases orphan : g.Orphan inlet
  · exact ⟨outlet, (rewired.stays inlet outlet orphan).mpr reads, rewired.nodes.outputType typed⟩
  · exact ⟨change outlet, (rewired.reads inlet _ orphan).mpr ⟨outlet, reads, rfl⟩,
      rewired.nodes.outputType (fits outlet type typed)⟩

/-- Readers may move to outlets of the same types. -/
theorem Rewired.sustains {change : Outlet → Outlet} (rewired : g.Rewired h change)
    (intact : g.Intact)
    (fits : ∀ outlet type, g.outputType outlet = .ok type →
      g.outputType (change outlet) = .ok type) : g.Sustains h where
  toEvolves := rewired.toRelinked.evolves intact
  toKeepsLinks := rewired.keepsLinks
  outputs := rewired.nodes.outputs
  typed typed := typed.of_supplies
    (fun _ _ found => by
      rcases rewired.nodes.symm.exists_node found with ⟨before, foundBefore, same⟩
      exact ⟨before, foundBefore, same.symm⟩)
    fun _ _ _ _ reads typed => rewired.supplies fits reads typed
  feeds := by
    rintro id _ type ⟨outlet, reads, typed⟩
    exact rewired.supplies fits reads typed

/-- What survives a sweep goes on reading what it read. -/
theorem supplies_swept {inlet : Inlet} {outlet : Outlet} {type : TensorType}
    (kept : g.reachable.contains inlet.node = true)
    (reads : g.Reads inlet outlet) (typed : g.outputType outlet = .ok type) :
    ∃ other, g.swept.Reads inlet other ∧ g.swept.outputType other = .ok type := by
  rcases outputType_eq_ok.mp typed with ⟨wire, wired, rfl⟩
  refine ⟨outlet, reads_restrict.mpr ⟨kept, reads⟩, ?_⟩
  refine outputType_eq_ok.mpr ⟨keepReaders g.reachable wire, ?_, rfl⟩
  exact wire_restrict.mpr ⟨reachable_closed kept reads.needs, wire, wired, rfl⟩

/-- Sweeping is a part of a rewrite as well. -/
theorem Intact.sustains_swept (intact : g.Intact) : g.Sustains g.swept where
  toEvolvesLinked := intact.evolvesLinked_swept
  outputs := g.outputs_swept
  typed typed := by
    apply typed.of_supplies
    · intro id now found
      rcases node?_swept.mp found with ⟨_, before, foundBefore, rfl⟩
      refine ⟨before, foundBefore, ?_⟩
      simp only [Node.unlinked, Node.unread, List.map_map]
      rfl
    · rintro inlet outlet type ⟨now, found⟩ reads typed
      exact supplies_swept (node?_swept.mp found).1 reads typed
  feeds := by
    rintro id member type ⟨outlet, reads, typed⟩
    have kept := contains_reachable.mpr ⟨id, member, .refl⟩
    exact supplies_swept kept reads typed

end Graph

/-! ## Applying a rule -/

namespace Work

open Stateful

theorem ends_edit {α : Type} {change : Edit α} {bench : Workbench}
    {succeeded : α → Workbench → Prop} {failed : Workbench → Prop} :
    Ends (edit change) bench succeeded failed ↔
      Ends change bench.graph (fun value graph => succeeded value { bench with graph := graph })
        fun graph => failed { bench with graph := graph } := by
  unfold Ends edit
  cases change bench.graph with
  | ok value graph => exact Iff.rfl
  | error failure graph => exact Iff.rfl

theorem ends_note {events : List Event} {bench : Workbench}
    {succeeded : Unit → Workbench → Prop} {failed : Workbench → Prop} :
    Ends (note events) bench succeeded failed ↔
      succeeded () { bench with journal := bench.journal ++ events.toArray } :=
  Iff.rfl

end Work

namespace Rule

open TensorCompiler.Graph Stateful

variable {g : Graph} {region : Region} {rule : Rule}

theorem ends_checkTypes {name : String} {pairs : List (Outlet × Outlet)} :
    Ends (checkTypes name pairs) g
      (fun _ h => h = g ∧ ∀ pair ∈ pairs, ∃ type,
        g.outputType pair.1 = .ok type ∧ g.outputType pair.2 = .ok type) (· = g) := by
  induction pairs with
  | nil => exact ⟨rfl, List.forall_mem_nil _⟩
  | cons pair rest inductionHypothesis =>
      rcases pair with ⟨old, new⟩
      simp only [checkTypes, ends_bind]
      refine Edit.ends_ask (fun oldType oldTyped => Edit.ends_ask (fun newType newTyped => ?_) rfl)
        rfl
      split
      · next same =>
        refine inductionHypothesis.imp ?_ fun _ stays => stays
        rintro _ h ⟨unchanged, others⟩
        exact ⟨unchanged, List.forall_mem_cons.mpr ⟨⟨oldType, oldTyped, same ▸ newTyped⟩, others⟩⟩
      · rfl

/-- Readers of a region can move to replacements of the same types that do not depend
on it. -/
theorem exists_moveReaders {built : Graph} {replacements : List Outlet} (intact : built.Intact)
    (inside : ∀ outlet ∈ region.outputs, outlet.node ∈ region.nodes)
    (early : ∀ new ∈ replacements, ¬ built.Late region.nodes new.node)
    (typed : ∀ pair ∈ region.outputs.zip replacements, ∃ type,
      built.outputType pair.1 = .ok type ∧ built.outputType pair.2 = .ok type) :
    ∃ after, moveReaders (region.outputs.zip replacements) built = .ok () after ∧
      built.Rewired after (redirected (region.outputs.zip replacements)) := by
  apply moveReaders_eq_ok intact.toFaithful intact.acyclic (downstream_late _ region.nodes)
  · intro pair member
    exact Late.of_mem (inside _ (List.of_mem_zip member).1)
  · intro pair member
    exact early _ (List.of_mem_zip member).2
  · intro pair member
    rcases typed pair member with ⟨type, oldTyped, newTyped⟩
    rcases outputType_eq_ok.mp oldTyped with ⟨old, oldWired, _⟩
    rcases outputType_eq_ok.mp newTyped with ⟨new, newWired, _⟩
    exact ⟨⟨old, oldWired⟩, ⟨new, newWired⟩⟩

/-- So replacements are put in place of the region, or nothing is done because they do
not fit. -/
theorem ends_install {built : Graph} {name : String} {replacements : List Outlet}
    (intact : built.Intact) (inside : ∀ outlet ∈ region.outputs, outlet.node ∈ region.nodes)
    (early : ∀ new ∈ replacements, ¬ built.Late region.nodes new.node) :
    Ends (install name region replacements) built
      (fun _ after => built.Rewired after (redirected (region.outputs.zip replacements)) ∧
        ∀ pair ∈ region.outputs.zip replacements, ∃ type,
          built.outputType pair.1 = .ok type ∧ built.outputType pair.2 = .ok type)
      (· = built) := by
  unfold install
  split
  · simp only [ends_bind]
    refine ends_checkTypes.imp ?_ fun _ stays => stays
    rintro _ _ ⟨rfl, typed⟩
    rcases exists_moveReaders intact inside early typed with ⟨after, moved, rewired⟩
    exact (ends_of_ok moved).mpr ⟨rewired, typed⟩
  · rfl

/-- Moving readers to replacements of the same types changes no type that is read. -/
theorem outputType_redirected {built : Graph} {pairs : List (Outlet × Outlet)}
    (typed : ∀ pair ∈ pairs, ∃ type,
      built.outputType pair.1 = .ok type ∧ built.outputType pair.2 = .ok type)
    (outlet : Outlet) (type : TensorType) (outletTyped : built.outputType outlet = .ok type) :
    built.outputType (redirected pairs outlet) = .ok type := by
  rcases redirected_cases pairs outlet with moved | ⟨stays, _⟩
  · rcases typed _ moved with ⟨same, oldTyped, newTyped⟩
    rw [newTyped, ← oldTyped]
    exact outletTyped
  · rw [stays]
    exact outletTyped

theorem ends_apply {id : Nat} {op : Operator} {journal : Journal} (careful : rule.Careful)
    (intact : g.Intact) (operator : g.op? id = some op) (anchored : op.opcode ∈ rule.anchors)
    (recognized : rule.recognize g id = some region) (bounded : region.Bounded g) :
    Ends (rule.apply region) ⟨g, journal⟩ (fun _ after => g.Sustains after.graph)
      fun after => g.Sustains after.graph := by
  simp only [apply, capture, ends_bind, Work.ends_edit, ends_pure, Work.ends_note]
  refine Edit.ends_ask ?_ (.refl intact)
  intro sources captured
  refine (careful intact operator anchored recognized bounded captured).imp ?_ ?_
  · rintro replacements built ⟨⟨added, beside, _⟩, permitted⟩
    refine (ends_install beside.intact bounded.inside ?_).imp ?_ ?_
    · intro new member
      exact beside.toEnlarges.not_late intact.toFaithful (permitted new member)
    · rintro _ after ⟨rewired, typed⟩
      exact beside.sustains.trans (rewired.sustains beside.intact (outputType_redirected typed))
    · rintro _ rfl
      exact beside.sustains
  · rintro built ⟨added, beside⟩
    exact beside.sustains

end Rule

/-! ## Whole runs -/

namespace Pass

open TensorCompiler.Graph Stateful

variable {g : Graph} {pass : Pass} {rule : Rule} {region : Region}

theorem ends_applyAt {id : Nat} {op : Operator} {journal : Journal}
    (offers : pass.Offers g rule region id op) (careful : rule.Careful) (intact : g.Intact) :
    Ends (pass.applyAt rule region) ⟨g, journal⟩ (fun _ after => g.Sustains after.graph)
      fun after => g.Sustains after.graph := by
  simp only [applyAt, ends_bind, Work.ends_edit, Work.ends_note]
  refine Edit.ends_ask ?_ (.refl intact)
  intro first _
  refine (Rule.ends_apply careful intact offers.operator offers.anchored offers.recognized
    (Region.bounded_of_isReplaceable offers.checked)).imp ?_ fun _ sustains => sustains
  intro _ after sustains
  exact sustains.trans sustains.intact.sustains_swept

theorem ends_finish {stats : PassStats} {journal : Journal} (intact : g.Intact) :
    Ends (pass.finish stats) ⟨g, journal⟩ (fun _ after => g.Sustains after.graph)
      fun after => g.Sustains after.graph := by
  have swept := intact.sustains_swept
  unfold finish
  simp only [ends_bind, Work.ends_edit]
  change Ends _ (⟨g.swept, journal⟩ : Workbench) _ _
  split
  · exact swept
  · exact swept

theorem ends_runWithin (careful : ∀ rule ∈ pass.rules, rule.Careful) {limit remaining : Nat}
    {stats : PassStats} {journal : Journal} (intact : g.Intact) :
    Ends (pass.runWithin limit remaining stats) ⟨g, journal⟩
      (fun _ after => g.Sustains after.graph) fun after => g.Sustains after.graph := by
  induction remaining generalizing g stats journal with
  | zero =>
      unfold runWithin
      rw [ends_bind, ends_of_ok (nextMatch_eq pass g journal)]
      cases found : (pass.search g).2 with
      | none => exact ends_finish intact
      | some offered => exact .refl intact
  | succ remaining inductionHypothesis =>
      unfold runWithin
      rw [ends_bind, ends_of_ok (nextMatch_eq pass g journal)]
      cases found : (pass.search g).2 with
      | none => exact ends_finish intact
      | some offered =>
          rcases offered with ⟨rule, region⟩
          rcases tryNodes_eq_some found with ⟨id, op, offers⟩
          simp only [ends_bind]
          refine (ends_applyAt offers (careful rule offers.member) intact).imp ?_
            fun _ sustains => sustains
          intro removed after sustains
          exact (inductionHypothesis sustains.intact).imp
            (fun _ _ later => sustains.trans later) fun _ later => sustains.trans later

/-- A pass of careful rules keeps a graph up, however it ends. -/
theorem sustains_run (careful : ∀ rule ∈ pass.rules, rule.Careful) (intact : g.Intact)
    (limit : Nat) (journal : Journal) :
    g.Sustains (final (pass.run limit) ⟨g, journal⟩).graph :=
  (ends_runWithin careful intact).final

end Pass

/-! ## Rules that are built in -/

/-- The rules that come with the compiler: those that keep values, and the one that
moves convolutions to an accelerator, with any parameters. -/
def Rule.IsBuiltIn (rule : Rule) : Prop :=
  rule ∈ valueKeeping ∨ ∃ quantization, rule = lowerConv2dToAccel quantization

theorem Rule.IsBuiltIn.careful {rule : Rule} (builtIn : rule.IsBuiltIn) : rule.Careful := by
  rcases builtIn with member | ⟨quantization, rfl⟩
  · simp only [valueKeeping, List.mem_cons, List.not_mem_nil, or_false] at member
    rcases member with rfl | rfl | rfl | rfl | rfl | rfl | rfl | rfl
    · exact careful_lowerRelu
    · exact careful_foldTwoTransposes
    · exact careful_foldIdentityTranspose
    · exact careful_foldTwoReshapes
    · exact careful_foldIdentityReshape
    · exact careful_foldQuantizeDequantize
    · exact careful_fuseClamp
    · exact careful_foldUploadDownload
  · exact careful_lowerConv2dToAccel quantization

/-- A pass has only rules that come with the compiler. -/
def Pass.IsBuiltIn (pass : Pass) : Prop :=
  ∀ rule ∈ pass.rules, rule.IsBuiltIn

theorem Pass.IsBuiltIn.sustains {pass : Pass} {g : Graph} (builtIn : pass.IsBuiltIn)
    (intact : g.Intact) (limit : Nat) (journal : Journal) :
    g.Sustains (Stateful.final (pass.run limit) ⟨g, journal⟩).graph :=
  sustains_run (fun rule member => (builtIn rule member).careful) intact limit journal

/-! ## Requests and runs in turn -/

/-- What is done on a workbench: a request to the graph, or a run of a pass. -/
inductive Step where
  | request (operation : Operation)
  | run (pass : Pass) (limit : Nat)

namespace Step

open TensorCompiler.Graph

/-- The workbench after a step, whether the step succeeds or fails. -/
def perform : Step → Workbench → Workbench
  | request operation, bench => Stateful.final (Work.edit operation.edit) bench
  | run pass limit, bench => Stateful.final (pass.run limit) bench

/-- The workbench after some steps. -/
def performAll (steps : List Step) (bench : Workbench) : Workbench :=
  steps.foldl (fun bench step => step.perform bench) bench

theorem evolvesLinked_perform {step : Step} {bench : Workbench} (intact : bench.graph.Intact)
    (builtIn : ∀ pass limit, step = .run pass limit → pass.IsBuiltIn)
    (granted : ∀ old new, step = .request (.replaceUses old new) →
      ∃ h, replaceUses old new bench.graph = .ok () h) :
    bench.graph.EvolvesLinked (step.perform bench).graph := by
  cases step with
  | run pass limit =>
      exact ((builtIn pass limit rfl).sustains intact limit bench.journal).toEvolvesLinked
  | request operation =>
      have kept : bench.graph.LinksKept operation.edit := by
        by_cases replaces : ∃ old new, operation = .replaceUses old new
        · rcases replaces with ⟨old, new, rfl⟩
          rcases granted old new rfl with ⟨h, done⟩
          exact (Stateful.ends_of_ok done).mpr <|
            Operation.evolvesLinked_of_ok intact (.replaceUses old new) done
        · exact Operation.linksKept intact operation fun old new same => replaces ⟨old, new, same⟩
      have ends : Stateful.Ends (Work.edit operation.edit) bench
          (fun _ after => bench.graph.EvolvesLinked after.graph)
          fun after => bench.graph.EvolvesLinked after.graph := Work.ends_edit.mpr kept
      exact ends.final

theorem evolvesLinked_performAll {steps : List Step} {bench : Workbench}
    (intact : bench.graph.Intact)
    (builtIn : ∀ pass limit, .run pass limit ∈ steps → pass.IsBuiltIn)
    (granted : ∀ (index : Nat) old new, steps[index]? = some (.request (.replaceUses old new)) →
      ∃ h, replaceUses old new (performAll (steps.take index) bench).graph = .ok () h) :
    bench.graph.EvolvesLinked (performAll steps bench).graph := by
  induction steps generalizing bench with
  | nil => exact .refl intact
  | cons step rest inductionHypothesis =>
      have first : bench.graph.EvolvesLinked (step.perform bench).graph := by
        apply evolvesLinked_perform intact
        · rintro pass limit rfl
          exact builtIn pass limit List.mem_cons_self
        · rintro old new rfl
          exact granted 0 old new rfl
      refine first.trans (inductionHypothesis first.intact ?_ ?_)
      · intro pass limit member
        exact builtIn pass limit (List.mem_cons_of_mem step member)
      · intro index old new entry
        exact granted (index + 1) old new entry

/-- Links never diverge.  Any requests and any runs of passes with the rules that
come with the compiler follow each other on a graph that starts out empty, and all
of them may fail except a request to replace uses.  Then for every wire an inlet
reads it exactly if the wire lists the inlet, and so an attempt to disconnect an
inlet never breaks off because one end of a link is missing. -/
theorem reads_iff_listed (steps : List Step) (journal : Journal)
    (builtIn : ∀ pass limit, .run pass limit ∈ steps → pass.IsBuiltIn)
    (granted : ∀ (index : Nat) old new, steps[index]? = some (.request (.replaceUses old new)) →
      ∃ h, replaceUses old new (performAll (steps.take index) ⟨.empty, journal⟩).graph =
        .ok () h) :
    let g := (performAll steps ⟨.empty, journal⟩).graph
    (∀ inlet outlet wire, g.wire outlet = .ok wire →
      (g.producer inlet = .ok (some outlet) ↔ inlet ∈ wire.readers)) ∧
      ∀ inlet cause after, disconnect inlet g ≠ .error (.aborted cause) after := by
  intro g
  have evolves : Graph.empty.EvolvesLinked g :=
    evolvesLinked_performAll intact_empty builtIn granted
  have linked : g.Linked := evolves.linked valid_empty.linked
  refine ⟨?_, linked.disconnect_ne_aborted⟩
  intro inlet outlet wire wired
  constructor
  · intro reads
    rcases linked.exists_wire reads with ⟨again, wiredAgain, member⟩
    rcases Except.ok.inj (wired.symm.trans wiredAgain) with rfl
    exact member
  · intro member
    exact evolves.intact.readers outlet inlet ⟨wire, wired, member⟩

/-- A sum reads one value twice.  First it is made to read two transposes in a row
instead of a rectifier, then a request fails, and then a pass folds the transposes. -/
def foldedSum : List Step :=
  [.request (.input "image" ⟨.f32, [2, 3]⟩), .request (.transpose ⟨0, 0⟩ [1, 0]),
    .request (.transpose ⟨1, 0⟩ [1, 0]), .request (.unary .relu ⟨0, 0⟩),
    .request (.binary .add ⟨3, 0⟩ ⟨3, 0⟩), .request (.output "result" ⟨4, 0⟩),
    .request (.replaceUses ⟨3, 0⟩ ⟨2, 0⟩), .request (.disconnect ⟨9, 0⟩),
    .run ⟨"fold", [.foldTwoTransposes, .foldIdentityTranspose]⟩ 8]

/-- In the end exactly the two inlets of the sum read the image. -/
theorem reads_iff_listed_foldedSum :
    let g := (performAll foldedSum ⟨.empty, #[]⟩).graph
    g.nodeIds = [0, 4, 5] ∧
      ∀ inlet, g.producer inlet = .ok (some ⟨0, 0⟩) ↔ inlet = ⟨4, 0⟩ ∨ inlet = ⟨4, 1⟩ := by
  have builtIn : ∀ pass limit, .run pass limit ∈ foldedSum → pass.IsBuiltIn := by
    intro pass limit member
    simp only [foldedSum, List.mem_cons, reduceCtorEq, Step.run.injEq, List.not_mem_nil, or_false,
      false_or] at member
    rcases member with ⟨rfl, _⟩
    simp [Pass.IsBuiltIn, Rule.IsBuiltIn, Rule.valueKeeping]
  have granted : ∀ (index : Nat) old new,
      foldedSum[index]? = some (.request (.replaceUses old new)) →
      ∃ h, replaceUses old new (performAll (foldedSum.take index) ⟨.empty, #[]⟩).graph =
        .ok () h := by
    intro index old new entry
    rcases index with _ | _ | _ | _ | _ | _ | _ | _ | _ | index
    case succ.succ.succ.succ.succ.succ.zero =>
      cases entry
      exact ⟨_, rfl⟩
    all_goals cases entry
  rcases reads_iff_listed foldedSum #[] builtIn granted with ⟨links, _⟩
  refine ⟨by decide +kernel, ?_⟩
  have wired : ((performAll foldedSum ⟨.empty, #[]⟩).graph.wire ⟨0, 0⟩).map Wire.readers =
      .ok [⟨4, 0⟩, ⟨4, 1⟩] := by decide +kernel
  intro inlet
  cases found : (performAll foldedSum ⟨.empty, #[]⟩).graph.wire ⟨0, 0⟩ with
  | error failure =>
      rw [found] at wired
      cases wired
  | ok wire =>
      rw [found] at wired
      rw [links inlet ⟨0, 0⟩ wire found, Except.ok.inj wired]
      simp

end Step

/-! ## Types in the course of rewriting -/

namespace Graph

variable {g h : Graph}

theorem Effect.typed (effect : g.Effect h) (intact : g.Intact) (typed : g.Typed) : h.Typed := by
  cases effect with
  | unchanged => exact typed
  | added adds =>
      rcases adds with ⟨_, _, _, operands, accepted, appended⟩
      exact typed.append appended (wellTyped_connectedNode operands accepted)
  | relabelled same => exact typed.congr same.signatures
  | swept => exact intact.sustains_swept.typed typed

/-- Requests to typed constructors keep a graph well-typed, granted or not. -/
theorem typed_performAll {operations : List Operation} (intact : g.Intact) (typed : g.Typed)
    (allTyped : ∀ operation ∈ operations, operation.isTyped = true) :
    (Operation.performAll operations g).Typed := by
  induction operations generalizing g with
  | nil => exact typed
  | cons operation rest inductionHypothesis =>
      have effect : g.Effect (operation.perform g) :=
        (Operation.hasEffect intact operation (allTyped operation List.mem_cons_self)).final
      exact inductionHypothesis (effect.evolvesLinked intact).intact (effect.typed intact typed)
        fun other member => allTyped other (List.mem_cons_of_mem operation member)

/-- Type soundness.  A graph is well-typed if each node reads operands that its
constructor accepts and has the types that follow from them.  Requests to the typed
constructors, granted or not, make well-typed graphs only, and so do scripts.  A run
of a pass with the rules that come with the compiler keeps a graph well-typed however
it ends, and the same types reach its declared outputs as before.  The graph may come
from any session whatever, and afterwards it is fit for further runs. -/
theorem type_soundness :
    (∀ operations : List Operation, (∀ operation ∈ operations, operation.isTyped = true) →
      (Operation.performAll operations .empty).Typed) ∧
    (∀ bytes g, ofScript bytes = .ok g → g.Typed) ∧
    ∀ (g : Graph) (pass : Pass) (limit : Nat) (journal : Journal),
      g.Intact → g.Typed → pass.IsBuiltIn →
      let h := (Stateful.final (pass.run limit) ⟨g, journal⟩).graph
      h.Intact ∧ h.Typed ∧ h.outputs = g.outputs ∧
        ∀ id ∈ g.outputs, ∃ type, g.Feeds id type ∧ h.Feeds id type := by
  refine ⟨fun _ => typed_performAll intact_empty valid_empty.typed, ?_, ?_⟩
  · intro bytes g read
    exact (made_of_ofScript read).valid.typed
  · intro g pass limit journal intact typed builtIn h
    have sustains : g.Sustains h := builtIn.sustains intact limit journal
    refine ⟨sustains.intact, sustains.typed typed, sustains.outputs, ?_⟩
    intro id member
    rcases typed.exists_feeds (intact.mem_outputs.mp member) with ⟨type, feeds⟩
    exact ⟨type, feeds, sustains.feeds id member type feeds⟩

/-- Two rectifiers in a row; the request for a transpose of nothing is refused. -/
def rectifiedTwice : List Operation :=
  [.input "image" ⟨.f32, [2]⟩, .unary .relu ⟨0, 0⟩, .transpose ⟨9, 0⟩ [0], .unary .relu ⟨1, 0⟩,
    .output "result" ⟨2, 0⟩]

/-- A pass that may lower one rectifier only gives up at the second.  What it leaves
behind, a clamp and a rectifier, is well-typed. -/
theorem type_soundness_rectifiedTwice :
    let g := Operation.performAll rectifiedTwice .empty
    ∃ after, Target.legalize.run 1 ⟨g, #[]⟩ =
        .error (.refused (.passDiverged "legalize" 1)) after ∧
      after.graph.nodeIds = [0, 2, 3, 4] ∧ after.graph.Typed ∧
      ∃ type, g.Feeds 3 type ∧ after.graph.Feeds 3 type := by
  intro g
  rcases type_soundness with ⟨made, _, runs⟩
  have typed : g.Typed := made rectifiedTwice (by decide)
  have builtIn : Target.legalize.IsBuiltIn := by
    simp [Pass.IsBuiltIn, Target.legalize, Rule.IsBuiltIn, Rule.valueKeeping]
  rcases runs g Target.legalize 1 #[] (Operation.intact_performAll _) typed builtIn with
    ⟨_, stillTyped, _, feeds⟩
  have diverged : Stateful.failure? (Target.legalize.run 1) ⟨g, #[]⟩ =
      some (.refused (.passDiverged "legalize" 1)) := by decide +kernel
  have left : (Stateful.final (Target.legalize.run 1) ⟨g, #[]⟩).graph.nodeIds = [0, 2, 3, 4] := by
    decide +kernel
  have declared : 3 ∈ g.outputs := by decide +kernel
  exact ⟨_, Stateful.failure?_eq_some.mp diverged, left, stillTyped, feeds 3 declared⟩

end Graph
end TensorCompiler
