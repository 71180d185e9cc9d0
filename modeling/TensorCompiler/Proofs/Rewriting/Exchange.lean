import Mathlib.Algebra.BigOperators.Group.Finset.Piecewise
import Mathlib.Algebra.Order.BigOperators.Group.Finset
import TensorCompiler.Proofs.Rewriting.Convergence
import TensorCompiler.Proofs.Rewriting.Termination
import TensorCompiler.Proofs.Rewriting.Trades

namespace TensorCompiler

/-!
# What an application leaves

After an application and the sweep that follows, a graph holds the nodes that it held
outside of the region, and the new ones.  Nothing else can come in.  If the graph was
swept before, nothing else gets lost either, apart from constants: a path from a
declared output to a node outside of the region can be followed around the region,
through the replacement.
-/

namespace Region

variable {g : Graph} {region : Region} {sources : List Outlet}

/-- What a region reads from outside is among its sources. -/
theorem mem_sources_of_reads (checked : region.isReplaceable g = true)
    (captured : region.inputs.mapM g.connectedProducer = .ok sources) {inlet : Inlet}
    {outlet : Outlet} (member : inlet.node ∈ region.nodes) (reads : g.Reads inlet outlet)
    (outside : outlet.node ∉ region.nodes) : outlet ∈ sources := by
  have listed : inlet ∈ region.inputs :=
    (mem_inputs_iff_of_reads checked member reads).mpr outside
  rcases Checked.exists_mem_mapM captured listed with ⟨source, captures, produced⟩
  rw [Graph.reads_unique reads (Graph.connectedProducer_eq_ok.mp produced)]
  exact captures

end Region

/-! ## Applications -/

namespace Rule

open TensorCompiler.Graph

/-- A region has been traded for some nodes: what it read, its one result, what is read
instead, the graph with the new nodes in it, and the graph with the readers moved. -/
structure Applied (g : Graph) (region : Region) (sources : List Outlet) (old new : Outlet)
    (nodes : List Node) (built after : Graph) : Prop where
  valid : g.Valid
  replaceable : region.Replaceable g
  nonempty : region.nodes ≠ []
  unique : region.nodes.Nodup
  listed : ∀ inlet outlet, inlet.node ∈ region.nodes → g.Reads inlet outlet →
    outlet.node ∉ region.nodes → outlet ∈ sources
  outputs : region.outputs = [old]
  type : ∃ type, built.outputType old = .ok type ∧ built.outputType new = .ok type
  extended : g.Extended nodes built
  growth : g.Extends region.nodes built
  early : ¬ built.Late region.nodes new.node
  hangs : g.Hangs sources nodes new built
  same : built.SameNodes after
  declared : after.outputs = g.outputs
  reads : ∀ inlet outlet, after.Reads inlet outlet ↔ ∃ before, built.Reads inlet before ∧
    outlet = redirected [(old, new)] before

variable {g built after : Graph} {region : Region} {sources : List Outlet} {old new : Outlet}
  {nodes : List Node}

theorem redirected_of_ne {outlet : Outlet} (different : outlet ≠ old) :
    redirected [(old, new)] outlet = outlet := by
  rw [redirected_cons, if_neg different]
  rfl

theorem redirected_self : redirected [(old, new)] old = new := by
  rw [redirected_cons, if_pos rfl]

theorem Applied.inside (applied : Applied g region sources old new nodes built after) :
    old.node ∈ region.nodes :=
  applied.replaceable.inside old (applied.outputs ▸ List.mem_cons_self)

/-- The region is gone after a sweep. -/
theorem Applied.gone (applied : Applied g region sources old new nodes built after) :
    ∀ id ∈ region.nodes, after.swept.node? id = none := by
  apply swept_region applied.valid.declared applied.replaceable applied.growth applied.same
  have pairs : region.outputs.zip [new] = [(old, new)] := by rw [applied.outputs]; rfl
  have count : [new].length = region.outputs.length := by rw [applied.outputs]; rfl
  apply downstream_region applied.replaceable applied.growth count
  · intro pair member id inRegion depends
    rw [pairs] at member
    rcases List.mem_singleton.mp member with rfl
    exact applied.early ⟨id, inRegion, depends⟩
  · rw [pairs]
    exact applied.reads

/-- A link that does not lead to the result of the region stays. -/
theorem Applied.needs (applied : Applied g region sources old new nodes built after) {id : Nat}
    {source : Nat} (needs : built.Needs id source) (outside : source ∉ region.nodes) :
    after.Needs id source := by
  rcases needs_iff.mp needs with ⟨index, port, reads⟩
  have different : (⟨source, port⟩ : Outlet) ≠ old := by
    intro isOld
    have inside := applied.inside
    rw [← isOld] at inside
    exact outside inside
  have stays : after.Reads ⟨id, index⟩ ⟨source, port⟩ :=
    (applied.reads _ _).mpr ⟨⟨source, port⟩, reads, (redirected_of_ne different).symm⟩
  exact stays.needs

/-- What the replacement depends on does not change. -/
theorem Applied.depends_new (applied : Applied g region sources old new nodes built after)
    {id : Nat} (path : built.Depends new.node id) : after.Depends new.node id := by
  induction path with
  | refl => exact .refl
  | @tail reader source path needs inductionHypothesis =>
      refine .tail inductionHypothesis (applied.needs needs ?_)
      intro inRegion
      exact applied.early ⟨source, inRegion, .tail path needs⟩

theorem Applied.lt_size (applied : Applied g region sources old new nodes built after) {id : Nat}
    (member : id ∈ region.nodes) : id < g.slots.size := by
  rcases applied.replaceable.admitted id member with ⟨node, found, -⟩
  exact lt_size_of_node? found

/-- A node depends on the same nodes outside of the region as before, unless they are
constants: where a path went through the region, it goes through the replacement. -/
theorem Applied.depends (applied : Applied g region sources old new nodes built after)
    {root id : Nat} (outside : root ∉ region.nodes) (path : g.Depends root id) :
    (id ∈ region.nodes → after.Depends root new.node) ∧
      (id ∉ region.nodes →
        after.Depends root id ∨ ∃ data, g.op? id = some (.constant data)) := by
  induction path with
  | refl => exact ⟨fun inRegion => absurd inRegion outside, fun _ => Or.inl .refl⟩
  | @tail reader source path needs inductionHypothesis =>
      rcases needs_iff.mp needs with ⟨index, port, reads⟩
      have readsBuilt : built.Reads ⟨reader, index⟩ ⟨source, port⟩ :=
        (applied.growth.reads_old needs.lt_size).mpr reads
      by_cases readerInside : reader ∈ region.nodes
      · have through := inductionHypothesis.1 readerInside
        refine ⟨fun _ => through, fun sourceOutside => ?_⟩
        rcases applied.hangs.sources _ (applied.listed _ _ readerInside reads sourceOutside) with
          hangs | constant
        · exact Or.inl (Relation.ReflTransGen.trans through (applied.depends_new hangs))
        · exact Or.inr constant
      · rcases inductionHypothesis.2 readerInside with reached | ⟨data, constant⟩
        · constructor
          · -- Only the result of the region is read from outside.
            intro inRegion
            have isOld : (⟨source, port⟩ : Outlet) = old := by
              by_contra different
              have unlisted : (⟨source, port⟩ : Outlet) ∉ region.outputs := by
                rw [applied.outputs]
                exact fun member => different (List.mem_singleton.mp member)
              exact readerInside (applied.replaceable.leaving _ inRegion unlisted _ reads)
            have moved : after.Reads ⟨reader, index⟩ new :=
              (applied.reads _ _).mpr ⟨_, readsBuilt, by rw [isOld, redirected_self]⟩
            exact .tail reached moved.needs
          · exact fun sourceOutside =>
              Or.inl (.tail reached (applied.needs readsBuilt.needs sourceOutside))
        · -- A constant reads nothing.
          rcases Option.map_eq_some_iff.mp constant with ⟨node, found, isConstant⟩
          rcases reads_iff.mp reads with ⟨again, foundAgain, entry⟩
          rcases Option.some.inj (found.symm.trans foundAgain) with rfl
          rcases applied.valid.typed reader node found with ⟨operands, types, connected, typed,
            accepted⟩
          have none : operands.length = 0 := by
            rw [typed.length_eq, accepted.counts.1, isConstant]
            rfl
          rw [connected, List.length_eq_zero_iff.mp none] at entry
          cases entry

/-- A rule has built replacements for the results of a region, in a graph with the new nodes
in it, and the readers have been moved to them. -/
structure Installed (rule : Rule) (g : Graph) (region : Region) (sources replacements : List Outlet)
    (built after : Graph) : Prop where
  captured : region.inputs.mapM g.connectedProducer = .ok sources
  builds : rule.build ⟨region, sources⟩ g = .ok replacements built
  count : replacements.length = region.outputs.length
  early : ∀ new ∈ replacements, ¬ built.Late region.nodes new.node
  growth : g.Extends region.nodes built
  declared : built.outputs = g.outputs
  rewired : built.Rewired after (redirected (region.outputs.zip replacements))
  types : ∀ pair ∈ region.outputs.zip replacements, ∃ type,
    built.outputType pair.1 = .ok type ∧ built.outputType pair.2 = .ok type

/-- How an application comes about. -/
theorem exists_installed {rule : Rule} {id : Nat} {op : Operator} {journal : Journal}
    {bench : Workbench} (careful : rule.Careful) (intact : g.Intact) (valid : g.Valid)
    (operator : g.op? id = some op) (anchored : op.opcode ∈ rule.anchors)
    (recognized : rule.recognize g id = some region) (checked : region.isReplaceable g = true)
    (done : rule.apply region ⟨g, journal⟩ = .ok () bench) :
    ∃ sources replacements built,
      Installed rule g region sources replacements built bench.graph := by
  have bounded := Region.bounded_of_isReplaceable checked
  rcases apply_eq_ok.mp done with ⟨sources, replacements, built, captured, builds, installs, -⟩
  rcases (careful intact operator anchored recognized bounded captured).of_ok builds with
    ⟨⟨added, beside, -⟩, permitted⟩
  have early : ∀ other ∈ replacements, ¬ built.Late region.nodes other.node := fun other member =>
    beside.toEnlarges.not_late intact.toFaithful (permitted other member)
  rcases (ends_install beside.intact bounded.inside early).of_ok installs with ⟨rewired, types⟩
  exact ⟨sources, replacements, built, {
    captured, builds, early, rewired, types
    count := (install_eq_ok.mp installs).1
    growth := ⟨beside.toEnlarges, beside.links.linked valid.linked⟩
    declared := beside.outputs }⟩

theorem exists_applied {rule : Rule} {stage : Stage} {id : Nat} {op : Operator} {journal : Journal}
    {bench : Workbench} (careful : rule.Careful) (trades : rule.Trades stage) (intact : g.Intact)
    (valid : g.Valid) (operator : g.op? id = some op) (anchored : op.opcode ∈ rule.anchors)
    (recognized : rule.recognize g id = some region) (checked : region.isReplaceable g = true)
    (done : rule.apply region ⟨g, journal⟩ = .ok () bench) :
    ∃ sources old new nodes built roles,
      Applied g region sources old new nodes built bench.graph ∧
      List.Forall₂ (fun id role => g.role? id = some role) region.nodes roles ∧
      Trade stage roles (nodes.map Node.role) ∧ ∀ node ∈ nodes, node.IsFresh := by
  have bounded := Region.bounded_of_isReplaceable checked
  have replaceable := bounded.replaceable valid.linked
  rcases exists_installed careful intact valid operator anchored recognized checked done with
    ⟨sources, replacements, built, installed⟩
  have builds := installed.builds
  rcases trades intact valid operator anchored recognized replaceable installed.captured builds with
    @⟨roles, nodes, new, _, taken, trade, extended, fresh, hangs⟩
  rcases List.length_eq_one_iff.mp installed.count.symm with ⟨old, outputs⟩
  have pairs : region.outputs.zip [new] = [(old, new)] := by rw [outputs]; rfl
  have rewired := installed.rewired
  have types := installed.types
  rw [pairs] at rewired types
  refine ⟨sources, old, new, nodes, built, roles, ?_, taken, trade, fresh⟩
  exact {
    valid, replaceable, nonempty := bounded.nonempty, unique := bounded.unique
    listed := fun _ _ => Region.mem_sources_of_reads checked installed.captured
    outputs, type := types (old, new) List.mem_cons_self, extended, growth := installed.growth
    early := installed.early new List.mem_cons_self, hangs, same := rewired.nodes
    declared := rewired.nodes.outputs.trans installed.declared
    reads := fun inlet outlet =>
      rewired.reads inlet outlet (installed.growth.linked.not_orphan inlet) }

end Rule

/-! ## The nodes before and after -/

namespace Graph

variable {g h : Graph}

/-- Some nodes have been traded for others. -/
structure Exchanged (g : Graph) (stage : Stage) (removed : List Nat) (nodes : List Node)
    (h : Graph) : Prop where
  unique : removed.Nodup
  roles : ∃ roles, List.Forall₂ (fun id role => g.role? id = some role) removed roles ∧
    Trade stage roles (nodes.map Node.role)
  fresh : ∀ node ∈ nodes, node.IsFresh
  /-- A single new node has the type of a node that is gone. -/
  types : ∀ node, nodes = [node] → ∃ id ∈ removed, ∃ before, g.node? id = some before ∧
    node.outputs.map Wire.type = before.outputs.map Wire.type
  size : h.slots.size = g.slots.size + nodes.length
  outputs : h.outputs = g.outputs
  left : ∀ id now, h.node? id = some now →
    (id ∉ removed ∧ ∃ before, g.node? id = some before ∧ now.unlinked = before.unlinked) ∨
      ∃ index node, id = g.slots.size + index ∧ nodes[index]? = some node ∧
        now.unlinked = node.unlinked
  kept : g.swept = g → ∀ id op, id ∉ removed → g.op? id = some op →
    (∀ data, op ≠ .constant data) → h.contains id = true
  added : g.swept = g → ∀ index, index < nodes.length → h.contains (g.slots.size + index) = true

/-- A sweep changes nothing about the nodes that it leaves but their readers. -/
theorem exists_unlinked_of_swept {id : Nat} {now : Node} (found : g.swept.node? id = some now) :
    ∃ before, g.node? id = some before ∧ now.unlinked = before.unlinked := by
  rcases node?_swept.mp found with ⟨-, before, beforeFound, rfl⟩
  refine ⟨before, beforeFound, ?_⟩
  simp [Node.unlinked, Node.unread, Wire.unlinked, keepReaders, Function.comp_def]

theorem exists_root_of_swept {id : Nat} {node : Node} (swept : g.swept = g)
    (found : g.node? id = some node) : ∃ root ∈ g.outputs, g.Depends root id := by
  rw [← swept] at found
  exact contains_reachable.mp (node?_swept.mp found).1

end Graph

namespace Rule

open TensorCompiler.Graph

variable {g built after : Graph} {region : Region} {sources : List Outlet} {old new : Outlet}
  {nodes : List Node}

/-- A single new node has the type of the node whose place it takes. -/
theorem Applied.types (applied : Applied g region sources old new nodes built after)
    (fresh : ∀ node ∈ nodes, node.IsFresh) {node : Node} (single : nodes = [node]) :
    ∃ id ∈ region.nodes, ∃ before, g.node? id = some before ∧
      node.outputs.map Wire.type = before.outputs.map Wire.type := by
  subst single
  obtain rfl : new = ⟨g.slots.size, 0⟩ := applied.hangs.last (List.cons_ne_nil node [])
  rcases applied.type with ⟨type, oldTyped, newTyped⟩
  rcases applied.replaceable.admitted old.node applied.inside with ⟨before, found, -⟩
  refine ⟨old.node, applied.inside, before, found, ?_⟩
  have before_type : before.outputs.map Wire.type = [type] := by
    rcases outputType_iff.mp oldTyped with ⟨now, nowFound, entry⟩
    have view := applied.extended.old (applied.lt_size applied.inside)
    rw [nowFound, found, Option.map_some, Option.map_some] at view
    rw [Node.signature_of_unread (Option.some.inj view)] at entry
    rcases applied.valid.typed old.node before found with ⟨_, _, -, -, accepted⟩
    exact (accepted.eq_singleton entry).2
  have new_type : node.outputs.map Wire.type = [type] := by
    rcases applied.extended.new 0 rfl with ⟨now, nowFound, view⟩
    rcases outputType_iff.mp newTyped with ⟨again, foundAgain, entry⟩
    rw [Nat.add_zero] at nowFound
    rcases Option.some.inj (nowFound.symm.trans foundAgain) with rfl
    rw [Node.signature_of_unread view] at entry
    rcases fresh node List.mem_cons_self with ⟨result, outputs⟩
    rw [Node.signature, outputs] at entry
    rw [outputs, List.map_singleton]
    exact congrArg ([·]) (Option.some.inj entry)
  rw [new_type, before_type]

theorem Applied.outside (applied : Applied g region sources old new nodes built after) {root : Nat}
    (declared : root ∈ g.outputs) : root ∉ region.nodes := by
  intro inRegion
  rcases applied.replaceable.admitted root inRegion with ⟨node, found, notOutput⟩
  have isOutput := applied.valid.declared root declared
  rw [op?, found] at isOutput
  exact notOutput (Option.some.inj isOutput)

theorem Applied.size (applied : Applied g region sources old new nodes built after) :
    after.slots.size = g.slots.size + nodes.length :=
  applied.same.size.trans applied.extended.size

theorem Applied.contains_swept (applied : Applied g region sources old new nodes built after)
    {root id : Nat} (present : built.contains id = true) (declared : root ∈ g.outputs)
    (path : after.Depends root id) : after.swept.contains id = true := by
  rcases contains_iff.mp present with ⟨node, found⟩
  rcases applied.same.exists_node found with ⟨now, nowFound, -⟩
  have reachable : after.reachable.contains id = true := contains_reachable.mpr
    ⟨root, applied.declared ▸ declared, path⟩
  exact contains_iff.mpr ⟨_, node?_swept.mpr ⟨reachable, now, nowFound, rfl⟩⟩

/-- What is left after the sweep was outside of the region, or is new. -/
theorem Applied.left (applied : Applied g region sources old new nodes built after) {id : Nat}
    {now : Node} (found : after.swept.node? id = some now) :
    (id ∉ region.nodes ∧ ∃ before, g.node? id = some before ∧ now.unlinked = before.unlinked) ∨
      ∃ index node, id = g.slots.size + index ∧ nodes[index]? = some node ∧
        now.unlinked = node.unlinked := by
  rcases exists_unlinked_of_swept found with ⟨moved, movedFound, sweptView⟩
  rcases applied.same.symm.exists_node movedFound with ⟨kept, keptFound, movedView⟩
  rw [sweptView, ← movedView]
  rcases Nat.lt_or_ge id g.slots.size with inside | beyond
  · left
    have view := applied.extended.old inside
    rw [keptFound, Option.map_some] at view
    rcases Option.map_eq_some_iff.mp view.symm with ⟨before, beforeFound, same⟩
    refine ⟨fun inRegion => ?_, before, beforeFound, (Node.unread_eq_iff.mp same.symm).1⟩
    rw [applied.gone id inRegion] at found
    cases found
  · right
    have inside : id - g.slots.size < nodes.length := by
      have := lt_size_of_node? keptFound
      rw [applied.extended.size] at this
      omega
    have entry : nodes[id - g.slots.size]? = some nodes[id - g.slots.size] :=
      List.getElem?_eq_getElem inside
    have position : g.slots.size + (id - g.slots.size) = id := Nat.add_sub_cancel' beyond
    rcases applied.extended.new _ entry with ⟨again, foundAgain, same⟩
    rw [position] at foundAgain
    rcases Option.some.inj (keptFound.symm.trans foundAgain) with rfl
    exact ⟨_, _, position.symm, entry, (Node.unread_eq_iff.mp same).1⟩

theorem Applied.exchanged (applied : Applied g region sources old new nodes built after)
    {stage : Stage} {roles : List Role}
    (taken : List.Forall₂ (fun id role => g.role? id = some role) region.nodes roles)
    (trade : Trade stage roles (nodes.map Node.role)) (fresh : ∀ node ∈ nodes, node.IsFresh) :
    g.Exchanged stage region.nodes nodes after.swept := by
  constructor
  · exact applied.unique
  · exact ⟨roles, taken, trade⟩
  · exact fresh
  · exact fun node single => applied.types fresh single
  · rw [← applied.size]
    exact Array.size_mapIdx
  · rw [outputs_swept, applied.declared]
  · exact fun id now found => applied.left found
  · intro swept id op outside operator notConstant
    rcases Option.map_eq_some_iff.mp operator with ⟨node, found, -⟩
    rcases exists_root_of_swept swept found with ⟨root, declared, path⟩
    rcases applied.growth.exists_node found with ⟨kept, keptFound, -⟩
    rcases (applied.depends (applied.outside declared) path).2 outside with reached | ⟨data, isData⟩
    · exact applied.contains_swept (contains_iff.mpr ⟨kept, keptFound⟩) declared reached
    · exact absurd (Option.some.inj (operator.symm.trans isData)) (notConstant data)
  · intro swept index inside
    rcases List.exists_mem_of_ne_nil _ applied.nonempty with ⟨id, inRegion⟩
    rcases applied.replaceable.admitted id inRegion with ⟨node, found, -⟩
    rcases exists_root_of_swept swept found with ⟨root, declared, path⟩
    have through := (applied.depends (applied.outside declared) path).1 inRegion
    have further := applied.depends_new (applied.hangs.added index inside)
    rcases applied.extended.new index (List.getElem?_eq_getElem inside) with ⟨now, nowFound, -⟩
    exact applied.contains_swept (contains_iff.mpr ⟨now, nowFound⟩) declared
      (Relation.ReflTransGen.trans through further)

end Rule

/-- An application of a rule of a pass and the sweep after it, as an exchange of nodes. -/
theorem Pass.Rewrites.exists_exchanged {pass : Pass} {g h : Graph} (rewrites : pass.Rewrites g h)
    (holds : Stage → Prop)
    (rules : ∀ rule ∈ pass.rules, rule.Careful ∧ ∃ stage, holds stage ∧ rule.Trades stage)
    (intact : g.Intact) (valid : g.Valid) :
    ∃ stage removed nodes, holds stage ∧ g.Exchanged stage removed nodes h := by
  cases rewrites with
  | @intro rule region id op journal after offers applied =>
      rcases rules rule offers.member with ⟨careful, stage, allowed, trades⟩
      rcases Rule.exists_applied careful trades intact valid offers.operator offers.anchored
        offers.recognized offers.checked applied with
        ⟨sources, old, new, nodes, built, roles, application, taken, trade, fresh⟩
      exact ⟨stage, region.nodes, nodes, allowed, application.exchanged taken trade fresh⟩

/-! ## Totals -/

namespace Graph

open Finset

variable {g h : Graph} {stage : Stage} {removed : List Nat} {nodes : List Node}
  {load : Node → Nat}

def loadAt (g : Graph) (load : Node → Nat) (id : Nat) : Nat :=
  (g.node? id).elim 0 load

/-- The sum of a quantity over all nodes. -/
def total (g : Graph) (load : Node → Nat) : Nat :=
  ∑ id ∈ range g.slots.size, g.loadAt load id

theorem loadAt_eq_zero {id : Nat} (absent : g.node? id = none) : g.loadAt load id = 0 := by
  rw [loadAt, absent, Option.elim_none]

theorem loadAt_of_node? {id : Nat} {node : Node} (found : g.node? id = some node) :
    g.loadAt load id = load node := by
  rw [loadAt, found, Option.elim_some]

theorem sum_getElem? (nodes : List Node) (load : Node → Nat) :
    ∑ index ∈ range nodes.length, nodes[index]?.elim 0 load = (nodes.map load).sum := by
  induction nodes with
  | nil => rfl
  | cons node rest inductionHypothesis =>
      rw [List.length_cons, sum_range_succ']
      simp [inductionHypothesis, Nat.add_comm]

/-- What the nodes that are gone amount to. -/
theorem Exchanged.sum_removed (exchanged : g.Exchanged stage removed nodes h) :
    ∑ id ∈ range g.slots.size, (if id ∈ removed then g.loadAt load id else 0) =
      (removed.map (g.loadAt load)).sum := by
  have inside : removed.toFinset ⊆ range g.slots.size := by
    intro id member
    rcases exchanged.roles with ⟨roles, taken, -⟩
    rcases List.getElem_of_mem (List.mem_toFinset.mp member) with ⟨index, bound, rfl⟩
    have role := (List.forall₂_iff_get.mp taken).2 index bound (taken.length_eq ▸ bound)
    rcases Option.map_eq_some_iff.mp role with ⟨node, found, -⟩
    exact mem_range.mpr (lt_size_of_node? found)
  simp only [← List.mem_toFinset]
  rw [sum_ite_mem, inter_eq_right.mpr inside, List.sum_toFinset _ exchanged.unique]

/-- A quantity that does not depend on links. -/
def IsBlind (load : Node → Nat) : Prop :=
  ∀ node other : Node, node.unlinked = other.unlinked → load node = load other

/-- A node at an old position is as it was. -/
theorem Exchanged.load_old (exchanged : g.Exchanged stage removed nodes h) (blind : IsBlind load)
    {id : Nat} {now : Node} (inside : id < g.slots.size) (found : h.node? id = some now) :
    id ∉ removed ∧ g.loadAt load id = load now := by
  rcases exchanged.left id now found with ⟨outside, before, beforeFound, same⟩ | new
  · exact ⟨outside, by rw [loadAt_of_node? beforeFound, blind now before same]⟩
  · rcases new with ⟨index, -, rfl, -⟩
    exact absurd inside (Nat.not_lt.mpr (Nat.le_add_right _ _))

/-- A node at a new position is the new one. -/
theorem Exchanged.load_new (exchanged : g.Exchanged stage removed nodes h) (blind : IsBlind load)
    {index : Nat} {now : Node} (found : h.node? (g.slots.size + index) = some now) :
    nodes[index]?.elim 0 load = load now := by
  rcases exchanged.left _ now found with ⟨-, before, beforeFound, -⟩ | new
  · exact absurd (lt_size_of_node? beforeFound) (Nat.not_lt.mpr (Nat.le_add_right _ _))
  · rcases new with ⟨position, node, same, entry, view⟩
    rcases Nat.add_left_cancel same with rfl
    rw [entry, Option.elim_some, blind now node view]

/-- An exchange brings in no more than its new nodes amount to, and takes away at least
what the old ones did. -/
theorem Exchanged.total_le (exchanged : g.Exchanged stage removed nodes h)
    (blind : IsBlind load) :
    h.total load + (removed.map (g.loadAt load)).sum ≤ g.total load + (nodes.map load).sum := by
  have old : ∑ id ∈ range g.slots.size,
      (h.loadAt load id + if id ∈ removed then g.loadAt load id else 0) ≤ g.total load := by
    apply sum_le_sum
    intro id member
    cases found : h.node? id with
    | none =>
        rw [loadAt_eq_zero found, Nat.zero_add]
        split
        · exact Nat.le_refl _
        · exact Nat.zero_le _
    | some now =>
        rcases exchanged.load_old blind (mem_range.mp member) found with ⟨outside, same⟩
        rw [if_neg outside, Nat.add_zero, loadAt_of_node? found, same]
  have new : ∑ index ∈ range nodes.length, h.loadAt load (g.slots.size + index) ≤
      ∑ index ∈ range nodes.length, nodes[index]?.elim 0 load := by
    apply sum_le_sum
    intro index _
    cases found : h.node? (g.slots.size + index) with
    | none =>
        rw [loadAt_eq_zero found]
        exact Nat.zero_le _
    | some now => rw [loadAt_of_node? found, exchanged.load_new blind found]
  rw [sum_add_distrib, exchanged.sum_removed] at old
  rw [sum_getElem?] at new
  rw [total, exchanged.size, sum_range_add]
  omega

/-- If the graph was swept before, an exchange is exact, for a quantity that constants do
not have. -/
theorem Exchanged.total_eq (exchanged : g.Exchanged stage removed nodes h) (swept : g.swept = g)
    (blind : IsBlind load) (free : ∀ node data, node.op = .constant data → load node = 0) :
    h.total load + (removed.map (g.loadAt load)).sum = g.total load + (nodes.map load).sum := by
  apply Nat.le_antisymm (exchanged.total_le blind)
  have old : g.total load ≤ ∑ id ∈ range g.slots.size,
      (h.loadAt load id + if id ∈ removed then g.loadAt load id else 0) := by
    apply sum_le_sum
    intro id member
    by_cases gone : id ∈ removed
    · rw [if_pos gone]
      exact Nat.le_add_left _ _
    rw [if_neg gone, Nat.add_zero]
    cases found : g.node? id with
    | none =>
        rw [loadAt_eq_zero found]
        exact Nat.zero_le _
    | some before =>
        by_cases constant : ∃ data, before.op = .constant data
        · rcases constant with ⟨data, isConstant⟩
          rw [loadAt_of_node? found, free before data isConstant]
          exact Nat.zero_le _
        · have operator : g.op? id = some before.op := by rw [op?, found, Option.map_some]
          have stays := exchanged.kept swept id before.op gone operator
            fun data same => constant ⟨data, same⟩
          rcases contains_iff.mp stays with ⟨now, nowFound⟩
          rw [(exchanged.load_old blind (mem_range.mp member) nowFound).2,
            loadAt_of_node? nowFound]
  have new : ∑ index ∈ range nodes.length, nodes[index]?.elim 0 load ≤
      ∑ index ∈ range nodes.length, h.loadAt load (g.slots.size + index) := by
    apply sum_le_sum
    intro index member
    rcases contains_iff.mp (exchanged.added swept index (mem_range.mp member)) with ⟨now, found⟩
    rw [loadAt_of_node? found, exchanged.load_new blind found]
  rw [sum_add_distrib, exchanged.sum_removed] at old
  rw [sum_getElem?] at new
  rw [total, total, exchanged.size, sum_range_add]
  rw [total] at old
  omega

/-! ## Totals over roles -/

theorem isBlind_role (count : Role → Nat) : IsBlind fun node => count node.role := by
  intro node other same
  have role : node.unlinked.role = other.unlinked.role := congrArg Node.role same
  exact congrArg count role

theorem map_loadAt_of_roles {ids : List Nat} {roles : List Role} (count : Role → Nat)
    (taken : List.Forall₂ (fun id role => g.role? id = some role) ids roles) :
    ids.map (g.loadAt fun node => count node.role) = roles.map count := by
  rw [← List.forall₂_eq_eq_eq, List.forall₂_map_left_iff, List.forall₂_map_right_iff]
  refine taken.imp ?_
  intro id role found
  rcases Option.map_eq_some_iff.mp found with ⟨node, nodeFound, rfl⟩
  exact loadAt_of_node? nodeFound

/-- What every trade lowers is lowered by an exchange. -/
theorem Exchanged.total_role_le (exchanged : g.Exchanged stage removed nodes h) {count : Role → Nat}
    {less : Nat} (lowers : ∀ old new, Trade stage old new →
      (new.map count).sum + less ≤ (old.map count).sum) :
    h.total (fun node => count node.role) + less ≤ g.total fun node => count node.role := by
  rcases exchanged.roles with ⟨roles, taken, trade⟩
  have bound := exchanged.total_le (isBlind_role count)
  have balance := lowers _ _ trade
  rw [List.map_map] at balance
  rw [map_loadAt_of_roles count taken] at bound
  have same : (nodes.map fun node => count node.role) = nodes.map (count ∘ Node.role) := rfl
  rw [same] at bound
  omega

/-- What every trade keeps is kept by an exchange in a swept graph, constants apart. -/
theorem Exchanged.total_role_eq (exchanged : g.Exchanged stage removed nodes h)
    (swept : g.swept = g) {count : Role → Nat}
    (free : ∀ data marks, count ⟨.constant data, marks⟩ = 0)
    (keeps : ∀ old new, Trade stage old new → (new.map count).sum = (old.map count).sum) :
    h.total (fun node => count node.role) = g.total fun node => count node.role := by
  rcases exchanged.roles with ⟨roles, taken, trade⟩
  have constants : ∀ (node : Node) data, node.op = .constant data → count node.role = 0 := by
    intro node data isConstant
    rw [Node.role, isConstant, free]
  have bound := exchanged.total_eq swept (isBlind_role count) constants
  have balance := keeps _ _ trade
  rw [List.map_map] at balance
  rw [map_loadAt_of_roles count taken] at bound
  have same : (nodes.map fun node => count node.role) = nodes.map (count ∘ Node.role) := rfl
  rw [same, balance] at bound
  exact Nat.add_right_cancel bound

end Graph
end TensorCompiler
