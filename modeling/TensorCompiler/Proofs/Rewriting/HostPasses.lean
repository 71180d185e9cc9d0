import TensorCompiler.Proofs.Rewriting.Exchange
import TensorCompiler.Proofs.Rewriting.NormalForm
import TensorCompiler.Proofs.Schedule.Completion

namespace TensorCompiler

/-!
# The passes of the host

For every pass of the host there is a simple measure that each of its applications
lowers: the number of rectifiers for the one that replaces them, and the number of all
nodes for those that fold and fuse.  Neither ever grows, so a limit of as many
applications as there are nodes is enough in every round.

The passes also leave a graph that the host can execute as it is, and one whose values
take no more bytes than before, since a new node takes the place of an old one of the
same type.
-/

/-! ## What the passes of the host trade -/

/-- What an application at some stage takes away at least one of. -/
def Stage.price : Stage → Role → Nat
  | .legalizing, ⟨.unary .relu, _⟩ => 1
  | .legalizing, _ => 0
  | _, _ => 1

theorem Stage.price_le (stage : Stage) (role : Role) : stage.price role ≤ 1 := by
  unfold Stage.price
  split
  · exact Nat.le_refl _
  · exact Nat.zero_le _
  · exact Nat.le_refl _

section

variable {stage : Stage} {old new : List Role}

theorem Trade.sum_price (trade : Trade stage old new) (host : stage ≠ .offloading) :
    (new.map stage.price).sum + 1 ≤ (old.map stage.price).sum := by
  cases trade with
  | offload => exact absurd rfl host
  | _ => simp [Stage.price]

theorem Trade.length_le (trade : Trade stage old new) (host : stage ≠ .offloading) :
    new.length ≤ old.length ∧ new.length ≤ 1 := by
  cases trade with
  | offload => exact absurd rfl host
  | _ => exact ⟨by simp, by simp⟩

theorem Trade.hosted (trade : Trade stage old new) (host : stage ≠ .offloading) :
    ∀ role ∈ new, Target.needsAccelerator role.op = false := by
  cases trade with
  | offload => exact absurd rfl host
  | _ => simp [Target.needsAccelerator, Operator.opcode]

end

namespace Graph

open Finset

variable {g h : Graph} {stage : Stage} {removed : List Nat} {nodes : List Node} {rule : SizeRule}

theorem total_le_total {load other : Node → Nat} (le : ∀ node, load node ≤ other node) :
    g.total load ≤ g.total other := by
  apply sum_le_sum
  intro id _
  cases found : g.node? id with
  | none => rw [loadAt_eq_zero found, loadAt_eq_zero found]
  | some node =>
      rw [loadAt_of_node? found, loadAt_of_node? found]
      exact le node

/-- A sum over all positions is one over those that hold a node. -/
theorem total_eq_sum (g : Graph) (load : Node → Nat) :
    g.total load = (g.nodeIds.map (g.loadAt load)).sum := by
  have positions : g.total load = ((List.range g.slots.size).map (g.loadAt load)).sum := rfl
  rw [positions, nodeIds]
  induction List.range g.slots.size with
  | nil => rfl
  | cons id rest inductionHypothesis =>
      rw [List.map_cons, List.sum_cons, inductionHypothesis]
      cases present : g.contains id with
      | true =>
          rw [List.filter_cons_of_pos present, List.map_cons, List.sum_cons]
      | false =>
          have absent : g.node? id = none :=
            Option.isNone_iff_eq_none.mp (Option.isSome_eq_false_iff.mp present)
          rw [List.filter_cons_of_neg (by simp [present]), loadAt_eq_zero absent, Nat.zero_add]

/-- An intact graph knows the number of its nodes. -/
theorem total_one (intact : g.Intact) : g.total (fun _ => 1) = g.size := by
  have ones : g.nodeIds.map (g.loadAt fun _ => 1) = g.nodeIds.map fun _ => 1 := by
    apply List.map_congr_left
    intro id member
    rcases contains_iff.mp (List.mem_filter.mp member).2 with ⟨node, found⟩
    exact loadAt_of_node? found
  rw [total_eq_sum, ones, intact.counted]
  simp

theorem total_swept_le {load : Node → Nat} (blind : IsBlind load) :
    g.swept.total load ≤ g.total load := by
  have size : g.swept.slots.size = g.slots.size := Array.size_mapIdx
  rw [total, size]
  apply sum_le_sum
  intro id _
  cases found : g.swept.node? id with
  | none =>
      rw [loadAt_eq_zero found]
      exact Nat.zero_le _
  | some now =>
      rcases exists_unlinked_of_swept found with ⟨before, beforeFound, same⟩
      rw [loadAt_of_node? found, loadAt_of_node? beforeFound, blind now before same]

end Graph

/-! ## Nodes of the host -/

/-- A node that does not need the accelerator and leaves its results in the memories of
the host. -/
structure Node.OnHost (node : Node) : Prop where
  operator : Target.needsAccelerator node.op = false
  memories : ∀ wire ∈ node.outputs, wire.memory ≠ .accelerator

/-- A node on the host whose results all have a size. -/
structure Node.IsHosted (rule : SizeRule) (node : Node) : Prop extends Node.OnHost node where
  sizes : ∀ wire ∈ node.outputs, rule.bytes wire.type = .ok (rule.size wire.type)

/-- All nodes of a graph are such nodes. -/
def Graph.IsHosted (rule : SizeRule) (g : Graph) : Prop :=
  ∀ id node, g.node? id = some node → node.IsHosted rule

theorem Graph.homeMemory_ne_accelerator {op : Operator}
    (hosted : Target.needsAccelerator op = false) : Graph.homeMemory op ≠ .accelerator := by
  unfold Graph.homeMemory
  unfold Target.needsAccelerator at hosted
  cases opcode : op.opcode with
  | accelUpload | accelConv2d =>
      rw [opcode] at hosted
      cases hosted
  | _ => simp

theorem Node.onHost_unlinked {node : Node} : node.unlinked.OnHost ↔ node.OnHost := by
  have memories : (∀ wire ∈ node.unlinked.outputs, wire.memory ≠ .accelerator) ↔
      ∀ wire ∈ node.outputs, wire.memory ≠ .accelerator := List.forall_mem_map
  constructor
  · exact fun onHost => ⟨onHost.operator, memories.mp onHost.memories⟩
  · exact fun onHost => ⟨onHost.operator, memories.mpr onHost.memories⟩

theorem Node.isHosted_unlinked {rule : SizeRule} {node : Node} :
    node.unlinked.IsHosted rule ↔ node.IsHosted rule := by
  have sizes : (∀ wire ∈ node.unlinked.outputs,
        rule.bytes wire.type = .ok (rule.size wire.type)) ↔
      ∀ wire ∈ node.outputs, rule.bytes wire.type = .ok (rule.size wire.type) :=
    List.forall_mem_map
  constructor
  · exact fun hosted => ⟨onHost_unlinked.mp hosted.toOnHost, sizes.mp hosted.sizes⟩
  · exact fun hosted => ⟨onHost_unlinked.mpr hosted.toOnHost, sizes.mpr hosted.sizes⟩

theorem Node.footprint_eq {rule : SizeRule} {node other : Node}
    (same : node.outputs.map Wire.type = other.outputs.map Wire.type) :
    node.footprint rule = other.footprint rule := by
  have view : ∀ node : Node,
      node.footprint rule = ((node.outputs.map Wire.type).map rule.size).sum := by
    intro node
    rw [List.map_map]
    rfl
  rw [view, view, same]

theorem Node.types_unlinked (node : Node) :
    node.unlinked.outputs.map Wire.type = node.outputs.map Wire.type := by
  change (node.outputs.map Wire.unlinked).map Wire.type = _
  rw [List.map_map]
  rfl

namespace Graph

variable {g h : Graph} {stage : Stage} {removed : List Nat} {nodes : List Node} {rule : SizeRule}

theorem isBlind_footprint (rule : SizeRule) : IsBlind (Node.footprint rule) := by
  intro node other same
  apply Node.footprint_eq
  rw [← node.types_unlinked, same, other.types_unlinked]

theorem Exchanged.length_le (exchanged : g.Exchanged stage removed nodes h)
    (host : stage ≠ .offloading) : nodes.length ≤ 1 := by
  rcases exchanged.roles with ⟨roles, -, trade⟩
  have bound := (trade.length_le host).2
  rwa [List.length_map] at bound

/-- The passes of the host leave nodes of the host. -/
theorem Exchanged.isHosted (exchanged : g.Exchanged stage removed nodes h)
    (host : stage ≠ .offloading) (hosted : g.IsHosted rule) : h.IsHosted rule := by
  intro id now found
  rcases exchanged.left id now found with ⟨-, before, beforeFound, same⟩ | new
  · rw [← Node.isHosted_unlinked, same, Node.isHosted_unlinked]
    exact hosted id before beforeFound
  · rcases new with ⟨index, node, -, entry, same⟩
    rw [← Node.isHosted_unlinked, same, Node.isHosted_unlinked]
    have member := List.mem_of_getElem? entry
    have single : nodes = [node] := by
      rcases List.length_eq_one_iff.mp (Nat.le_antisymm (exchanged.length_le host)
        (List.length_pos_of_mem member)) with ⟨only, rfl⟩
      rw [List.mem_singleton.mp member]
    rcases exchanged.roles with ⟨roles, -, trade⟩
    have operator := trade.hosted host node.role (List.mem_map_of_mem member)
    rcases exchanged.fresh node member with ⟨type, outputs⟩
    refine ⟨⟨operator, ?_⟩, ?_⟩
    · rw [outputs]
      exact List.forall_mem_singleton.mpr (homeMemory_ne_accelerator operator)
    · -- The type is that of a result which had a size already.
      rcases exchanged.types node single with ⟨gone, -, before, beforeFound, types⟩
      have listed : type ∈ before.outputs.map Wire.type := by
        rw [← types, outputs]
        exact List.mem_cons_self
      rcases List.mem_map.mp listed with ⟨old, oldMember, rfl⟩
      rw [outputs]
      exact List.forall_mem_singleton.mpr ((hosted gone before beforeFound).sizes old oldMember)

theorem Exchanged.total_footprint_le (exchanged : g.Exchanged stage removed nodes h)
    (host : stage ≠ .offloading) :
    h.total (Node.footprint rule) ≤ g.total (Node.footprint rule) := by
  have bound := exchanged.total_le (isBlind_footprint rule)
  have balance : (nodes.map (Node.footprint rule)).sum ≤
      (removed.map (g.loadAt (Node.footprint rule))).sum := by
    cases split : nodes with
    | nil => exact Nat.zero_le _
    | cons node rest =>
        have single : nodes = [node] := by
          have short := exchanged.length_le host
          rw [split, List.length_cons] at short
          rw [split, List.length_eq_zero_iff.mp (by omega : rest.length = 0)]
        rcases exchanged.types node single with ⟨gone, member, before, found, types⟩
        have load : g.loadAt (Node.footprint rule) gone = node.footprint rule := by
          rw [loadAt_of_node? found, Node.footprint_eq types]
        rw [← split, single, List.map_singleton, List.sum_singleton, ← load]
        exact List.single_le_sum (fun _ _ => Nat.zero_le _) _ (List.mem_map_of_mem member)
  omega

theorem Exchanged.total_one_le (exchanged : g.Exchanged stage removed nodes h)
    (host : stage ≠ .offloading) : h.total (fun _ => 1) ≤ g.total fun _ => 1 := by
  have ones : ∀ roles : List Role, (roles.map fun _ => 1).sum = roles.length := by simp
  have lowers : ∀ old new, Trade stage old new →
      (new.map fun _ => 1).sum + 0 ≤ (old.map fun _ => 1).sum := by
    intro old new trade
    rw [ones, ones]
    exact (trade.length_le host).1
  exact exchanged.total_role_le lowers

theorem isHosted_swept (hosted : g.IsHosted rule) : g.swept.IsHosted rule := by
  intro id now found
  rcases exists_unlinked_of_swept found with ⟨before, beforeFound, same⟩
  rw [← Node.isHosted_unlinked, same, Node.isHosted_unlinked]
  exact hosted id before beforeFound

/-- What the passes of the host make of a graph: one for the host with no more nodes and
no more bytes. -/
structure Hosting (rule : SizeRule) (g h : Graph) : Prop extends Sustains g h where
  hosted : h.IsHosted rule
  nodes : h.total (fun _ => 1) ≤ g.total fun _ => 1
  bytes : h.total (Node.footprint rule) ≤ g.total (Node.footprint rule)

theorem Hosting.refl (intact : g.Intact) (hosted : g.IsHosted rule) : Hosting rule g g where
  toSustains := .refl intact
  hosted := hosted
  nodes := Nat.le_refl _
  bytes := Nat.le_refl _

theorem Hosting.swept (hosting : Hosting rule g h) : Hosting rule g h.swept where
  toSustains := hosting.toSustains.trans hosting.intact.sustains_swept
  hosted := isHosted_swept hosting.hosted
  nodes := Nat.le_trans (total_swept_le fun _ _ _ => rfl) hosting.nodes
  bytes := Nat.le_trans (total_swept_le (isBlind_footprint rule)) hosting.bytes

theorem Hosting.exchange {k : Graph} (hosting : Hosting rule g h)
    (exchanged : h.Exchanged stage removed nodes k) (host : stage ≠ .offloading)
    (sustains : h.Sustains k) : Hosting rule g k where
  toSustains := hosting.toSustains.trans sustains
  hosted := exchanged.isHosted host hosting.hosted
  nodes := Nat.le_trans (exchanged.total_one_le host) hosting.nodes
  bytes := Nat.le_trans (exchanged.total_footprint_le host) hosting.bytes

end Graph

namespace Pass

open TensorCompiler.Graph

variable {pass : Pass} {stage : Stage} {g : Graph} {rule : SizeRule}

/-- An application at a stage of the host lowers the price of that stage. -/
theorem Rewrites.descends {h k : Graph} (rewrites : pass.Rewrites h k) (builtIn : pass.IsBuiltIn)
    (trades : ∀ rule ∈ pass.rules, rule.Trades stage) (host : stage ≠ .offloading)
    (valid : g.Valid) (hosting : Hosting rule g h) :
    Hosting rule g k ∧ k.total (fun node => stage.price node.role) <
      h.total fun node => stage.price node.role := by
  have rules : ∀ rule ∈ pass.rules, rule.Careful ∧ ∃ other, other = stage ∧ rule.Trades other :=
    fun rule member => ⟨(builtIn rule member).careful, stage, rfl, trades rule member⟩
  rcases rewrites.exists_exchanged (· = stage) rules hosting.intact (hosting.valid valid) with
    ⟨_, removed, nodes, rfl, exchanged⟩
  constructor
  · exact hosting.exchange exchanged host (rewrites.sustains builtIn hosting.intact)
  · exact exchanged.total_role_le fun old new trade => trade.sum_price host

/-- A pass of the host ends if it may apply as many rules as there are nodes. -/
theorem exists_run_of_stage {maxApplied : Nat} (builtIn : pass.IsBuiltIn)
    (trades : ∀ rule ∈ pass.rules, rule.Trades stage) (host : stage ≠ .offloading)
    (valid : g.Valid) (enough : g.total (fun _ => 1) ≤ maxApplied) {h : Graph}
    (hosting : Hosting rule g h) (journal : Journal) :
    ∃ stats after, pass.run maxApplied ⟨h, journal⟩ = .ok stats after ∧
      Hosting rule g after.graph := by
  have step : ∀ h k, Hosting rule g h → pass.Rewrites h k → Hosting rule g k ∧
      k.total (fun node => stage.price node.role) < h.total fun node => stage.price node.role :=
    fun h k hosting rewrites => rewrites.descends builtIn trades host valid hosting
  have applies : ∀ h rule' region id op journal, Hosting rule g h →
      pass.Offers h rule' region id op →
      ∃ removed after, pass.applyAt rule' region ⟨h, journal⟩ = .ok removed after := by
    intro h rule' region id op journal hosting offers
    have member := builtIn rule' offers.member
    exact exists_applyAt_of_fitting offers member.careful member.fitting hosting.intact
      (hosting.valid valid) journal
  have price : h.total (fun node => stage.price node.role) ≤ maxApplied :=
    Nat.le_trans (total_le_total fun node => stage.price_le node.role)
      (Nat.le_trans hosting.nodes enough)
  obtain ⟨stats, after, done⟩ : ∃ stats after,
      pass.run maxApplied ⟨h, journal⟩ = .ok stats after :=
    exists_runWithin_of_descent (Hosting rule g ·) _ applies step hosting price
  refine ⟨stats, after, done, ?_⟩
  exact holds_run (Hosting rule g ·) (fun h k hosting rewrites => (step h k hosting rewrites).1)
    (fun h hosting => hosting.swept) hosting done

end Pass

namespace Target

theorem exists_stage_cpu : ∀ pass ∈ cpu.passes,
    ∃ stage : Stage, stage ≠ .offloading ∧ ∀ rule ∈ pass.rules, rule.Trades stage := by
  have folds : ∀ rule ∈ foldRules, rule.Trades .folding := by
    simp only [foldRules, List.forall_mem_cons]
    exact ⟨Rule.trades_foldTwoTransposes, Rule.trades_foldIdentityTranspose,
      Rule.trades_foldTwoReshapes, Rule.trades_foldIdentityReshape,
      Rule.trades_foldQuantizeDequantize, List.forall_mem_nil _⟩
  simp only [cpu, List.forall_mem_cons]
  refine ⟨⟨.legalizing, by decide, ?_⟩, ⟨.folding, by decide, folds⟩, ⟨.fusing, by decide, ?_⟩,
    List.forall_mem_nil _⟩
  · exact List.forall_mem_singleton.mpr Rule.trades_lowerRelu
  · exact List.forall_mem_singleton.mpr Rule.trades_fuseClamp

/-- The passes of the host end without fail, in any number of rounds, if each of them may
apply as many rules as the graph has nodes. -/
theorem exists_run_cpu {g : Graph} {rule : SizeRule} {maxApplied : Nat} (intact : g.Intact)
    (valid : g.Valid) (hosted : g.IsHosted rule) (enough : g.size ≤ maxApplied)
    (maxRounds : Nat) (journal : Journal) :
    ∃ stats after, Pipeline.run ⟨cpu.passes, maxRounds, maxApplied⟩ ⟨g, journal⟩ =
      .ok stats after ∧ Graph.Hosting rule g after.graph := by
  rw [← Graph.total_one intact] at enough
  have each : ∀ pass ∈ cpu.passes, ∀ h journal, Graph.Hosting rule g h → ∃ stats after,
      pass.run maxApplied ⟨h, journal⟩ = .ok stats after ∧ Graph.Hosting rule g after.graph := by
    intro pass member h journal hosting
    rcases exists_stage_cpu pass member with ⟨stage, host, trades⟩
    exact Pass.exists_run_of_stage (isBuiltIn_cpu pass member) trades host valid enough hosting
      journal
  exact Pipeline.exists_run_of_passes (Graph.Hosting rule g ·) each (.refl intact hosted)

end Target
end TensorCompiler
