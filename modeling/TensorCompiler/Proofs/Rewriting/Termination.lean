import Mathlib.Algebra.Order.BigOperators.Group.List
import Mathlib.Algebra.Order.Group.Nat
import Mathlib.Data.List.Perm.Subperm
import TensorCompiler.Proofs.Rewriting.Descent
import TensorCompiler.Proofs.Rewriting.Upkeep

namespace TensorCompiler

/-!
# Rewriting comes to an end

Every application of a rule makes the graph lighter once it has been swept: the region
goes, and what has been built in its place weighs less.  So a graph can be rewritten at
most as often as it weighs, and an operator weighs seven at most.

A pass that may apply enough rules therefore ends without fail on a valid graph, and so
does a pipeline.  If it may also run more rounds than there are applications, one of
these rounds changes nothing.
-/

namespace Graph

variable {g h k built after : Graph} {region : Region} {added : List Operator}

/-! ## The weight of a graph -/

/-- The weight of all operators. -/
def weight (g : Graph) : Nat :=
  g.weightOf g.nodeIds

theorem weightOf_append (g : Graph) (first second : List Nat) :
    g.weightOf (first ++ second) = g.weightOf first + g.weightOf second := by
  rw [weightOf, List.map_append, List.sum_append, weightOf, weightOf]

theorem weightOf_congr {ids : List Nat} (same : ∀ id ∈ ids, h.op? id = g.op? id) :
    h.weightOf ids = g.weightOf ids := by
  refine congrArg List.sum (List.map_congr_left ?_)
  intro id member
  rw [weightAt, same id member, weightAt]

/-- Fewer operators do not weigh more. -/
theorem weightOf_le_of_subset {ids others : List Nat} (unique : ids.Nodup)
    (subset : ids ⊆ others) : g.weightOf ids ≤ g.weightOf others := by
  rcases List.subperm_of_subset unique subset with ⟨same, permuted, sublist⟩
  calc g.weightOf ids
      = g.weightOf same := ((permuted.map g.weightAt).sum_eq).symm
    _ ≤ g.weightOf others := (sublist.map g.weightAt).sum_le_sum fun _ _ => Nat.zero_le _

theorem weight_le (intact : g.Intact) : g.weight ≤ 7 * g.size := by
  have each : ∀ weight ∈ g.nodeIds.map g.weightAt, weight ≤ 7 := by
    intro weight member
    rcases List.mem_map.mp member with ⟨id, _, rfl⟩
    rw [weightAt]
    cases g.op? id with
    | none => exact Nat.zero_le 7
    | some op => exact op.weight_le
  have bound := List.sum_le_card_nsmul _ 7 each
  rw [List.length_map, ← intact.counted, Nat.nsmul_eq_mul, Nat.mul_comm] at bound
  exact bound

theorem nodup_nodeIds (g : Graph) : g.nodeIds.Nodup :=
  List.nodup_range.filter _

theorem SameInventory.weight (same : g.SameInventory h) : h.weight = g.weight := by
  rw [Graph.weight, same.nodeIds, weightOf_congr fun id _ => same.operators id, Graph.weight]

/-- A sweep keeps the operators that it leaves. -/
theorem weight_swept (g : Graph) : g.swept.weight = g.weightOf g.swept.nodeIds := by
  apply weightOf_congr
  intro id member
  rw [swept, nodeIds_restrict] at member
  rw [swept, op?_restrict, if_pos (List.mem_filter.mp member).2]

theorem nodeIds_swept_subset (g : Graph) : g.swept.nodeIds ⊆ g.nodeIds := by
  rw [swept, nodeIds_restrict]
  exact List.filter_sublist.subset

theorem weight_swept_le (g : Graph) : g.swept.weight ≤ g.weight := by
  rw [weight_swept]
  exact weightOf_le_of_subset g.swept.nodup_nodeIds g.nodeIds_swept_subset

/-! ## What an application takes away -/

section

variable {matched : List Nat}

theorem Beside.op?_old (beside : g.Beside matched added h) {id : Nat}
    (inside : id < g.slots.size) : h.op? id = g.op? id :=
  map_view_mono (beside.old id inside) fun first second same => by
    have operators : first.unread.op = second.unread.op := congrArg Node.op same
    exact operators

theorem Beside.nodeIds (beside : g.Beside matched added h) :
    h.nodeIds = g.nodeIds ++ (List.range added.length).map (g.slots.size + ·) := by
  rw [Graph.nodeIds, beside.count, List.range_add, List.filter_append]
  congr 1
  · apply List.filter_congr
    intro id inside
    rw [contains_eq, contains_eq, beside.op?_old (List.mem_range.mp inside)]
  · apply List.filter_eq_self.mpr
    intro id member
    rcases List.mem_map.mp member with ⟨index, inside, rfl⟩
    have within := List.mem_range.mp inside
    rw [contains_eq, beside.operators index within, List.getElem?_eq_getElem within]
    rfl

theorem Beside.weight (beside : g.Beside matched added h) :
    h.weight = g.weight + (added.map Operator.weight).sum := by
  have old : h.weightOf g.nodeIds = g.weight :=
    weightOf_congr fun id member => beside.op?_old (lt_size_of_mem_nodeIds member)
  have new : ((List.range added.length).map (g.slots.size + ·)).map h.weightAt =
      added.map Operator.weight := by
    apply List.ext_getElem
    · simp
    · intro index within _
      have inside : index < added.length := by simpa using within
      simp [weightAt, beside.operators index inside, inside]
  rw [Graph.weight, beside.nodeIds, weightOf_append, old, weightOf, new]

end

/-- Where a region has been replaced by something lighter, the graph has become
lighter after the sweep. -/
theorem Beside.weight_swept_lt (beside : g.Beside region.nodes added built)
    (lighter : (added.map Operator.weight).sum < g.weightOf region.nodes)
    (bounded : region.Bounded g) (same : built.SameInventory after)
    (gone : ∀ id ∈ region.nodes, after.swept.node? id = none) :
    after.swept.weight < g.weight := by
  have unique : (region.nodes ++ after.swept.nodeIds).Nodup := by
    refine List.nodup_append.mpr ⟨bounded.unique, after.swept.nodup_nodeIds, ?_⟩
    rintro id inRegion _ survives rfl
    rw [mem_nodeIds, contains, gone id inRegion] at survives
    cases survives
  have subset : region.nodes ++ after.swept.nodeIds ⊆ after.nodeIds := by
    refine List.append_subset.mpr ⟨?_, after.nodeIds_swept_subset⟩
    intro id inRegion
    rcases bounded.admitted id inRegion with ⟨node, found, _⟩
    rw [mem_nodeIds, contains_eq, same.operators, beside.op?_old (lt_size_of_node? found), op?,
      found]
    rfl
  have region : after.weightOf region.nodes = g.weightOf region.nodes := by
    apply weightOf_congr
    intro id inRegion
    rw [same.operators, beside.op?_old (bounded.lt_size id inRegion)]
  have total := weightOf_le_of_subset (g := after) unique subset
  rw [weightOf_append, region, ← weight_swept] at total
  have after : after.weightOf after.nodeIds = g.weight + (added.map Operator.weight).sum :=
    same.weight.trans beside.weight
  omega

/-! ## Progress -/

/-- A graph is kept up while rules are applied to it a number of times, and each time
it becomes lighter. -/
structure Progress (g : Graph) (count : Nat) (h : Graph) : Prop extends Sustains g h where
  lighter : count + h.weight ≤ g.weight

theorem Progress.refl (intact : g.Intact) : g.Progress 0 g where
  toSustains := .refl intact
  lighter := Nat.le_of_eq (Nat.zero_add _)

theorem Progress.trans {first second : Nat} (earlier : g.Progress first h)
    (later : h.Progress second k) : g.Progress (first + second) k where
  toSustains := earlier.toSustains.trans later.toSustains
  lighter := by
    have started := earlier.lighter
    have ended := later.lighter
    omega

theorem Intact.progress_swept (intact : g.Intact) : g.Progress 0 g.swept where
  toSustains := intact.sustains_swept
  lighter := by
    rw [Nat.zero_add]
    exact g.weight_swept_le

end Graph

/-! ## One application -/

namespace Rule

open TensorCompiler.Graph

variable {g : Graph} {region : Region} {rule : Rule}

/-- A rule that is careful and fitting can be applied to whatever region it recognizes,
and the graph is lighter after the sweep. -/
theorem exists_apply_lighter {id : Nat} {op : Operator} (careful : rule.Careful)
    (fitting : rule.Fitting) (intact : g.Intact) (valid : g.Valid)
    (operator : g.op? id = some op) (anchored : op.opcode ∈ rule.anchors)
    (recognized : rule.recognize g id = some region) (bounded : region.Bounded g)
    (journal : Journal) :
    ∃ after, rule.apply region ⟨g, journal⟩ = .ok () after ∧ g.Progress 1 after.graph.swept := by
  have replaceable := bounded.replaceable valid.linked
  rcases capture_eq_ok replaceable with ⟨sources, captured⟩
  rcases fitting valid operator anchored recognized replaceable captured with
    ⟨old, new, built, type, boundary, done, oldTyped, newTyped⟩
  rcases (careful intact operator anchored recognized bounded captured).of_ok done with
    ⟨⟨added, beside, lighter⟩, permitted⟩
  have early : ∀ other ∈ [new], ¬ built.Late region.nodes other.node := fun other member =>
    beside.toEnlarges.not_late intact.toFaithful (permitted other member)
  have count : [new].length = region.outputs.length := by rw [boundary]; rfl
  have typed : ∀ pair ∈ region.outputs.zip [new], ∃ type,
      built.outputType pair.1 = .ok type ∧ built.outputType pair.2 = .ok type := by
    intro pair member
    rw [boundary] at member
    rcases List.mem_singleton.mp member with rfl
    exact ⟨type, beside.toEnlarges.outputType oldTyped, newTyped⟩
  rcases exists_moveReaders beside.intact bounded.inside early typed with ⟨after, moved, rewired⟩
  let ended : Workbench := ⟨after, journal ++ (rule.remarks ⟨region, sources⟩).toArray⟩
  have applied : rule.apply region ⟨g, journal⟩ = .ok () ended := apply_eq_ok.mpr
    ⟨sources, [new], built, captured, done, install_eq_ok.mpr ⟨count, typed, moved⟩, rfl⟩
  -- The region is swept away because only the region itself still reads it.
  have growth : g.Extends region.nodes built :=
    ⟨beside.toEnlarges, beside.links.linked valid.linked⟩
  have closed : after.Downstream (· ∈ region.nodes) := by
    apply downstream_region replaceable growth count
    · intro pair member id inRegion depends
      exact early _ (List.of_mem_zip member).2 ⟨id, inRegion, depends⟩
    · intro inlet outlet
      exact rewired.reads inlet outlet (growth.linked.not_orphan inlet)
  have less : after.swept.weight < g.weight :=
    beside.weight_swept_lt lighter bounded rewired.toRelinked.inventory
      (swept_region valid.declared replaceable growth rewired.nodes closed)
  have sustains : g.Sustains after :=
    (ends_apply careful intact operator anchored recognized bounded).of_ok applied
  refine ⟨ended, applied, sustains.trans sustains.intact.sustains_swept, ?_⟩
  rw [Nat.add_comm]
  exact less

end Rule

/-! ## Whole runs -/

namespace Pass

open TensorCompiler.Graph

variable {g : Graph} {pass : Pass} {rule : Rule} {region : Region}

/-- Each application makes the graph lighter. -/
theorem Rewrites.progress {h : Graph} (rewrites : pass.Rewrites g h)
    (rules : ∀ rule ∈ pass.rules, rule.Careful ∧ rule.Fitting) (intact : g.Intact)
    (valid : g.Valid) : g.Progress 1 h := by
  cases rewrites with
  | @intro rule _ _ _ journal _ offers applied =>
      rcases rules rule offers.member with ⟨careful, fitting⟩
      rcases Rule.exists_apply_lighter careful fitting intact valid offers.operator
        offers.anchored offers.recognized (Region.bounded_of_isReplaceable offers.checked)
        journal with ⟨after, again, progress⟩
      rcases EStateM.Result.ok.inj (again.symm.trans applied) with ⟨_, rfl⟩
      exact progress

theorem exists_applyAt_of_fitting {id : Nat} {op : Operator}
    (offers : pass.Offers g rule region id op) (careful : rule.Careful) (fitting : rule.Fitting)
    (intact : g.Intact) (valid : g.Valid) (journal : Journal) :
    ∃ removed after, pass.applyAt rule region ⟨g, journal⟩ = .ok removed after := by
  have bounded := Region.bounded_of_isReplaceable offers.checked
  apply exists_applyAt_of_apply pass (bounded.replaceable valid.linked) bounded.nonempty
  intro journal
  rcases Rule.exists_apply_lighter careful fitting intact valid offers.operator offers.anchored
    offers.recognized bounded journal with ⟨after, applied, _⟩
  exact ⟨after, applied⟩

/-- A pass that may apply as many rules as the graph weighs ends without fail. -/
theorem exists_run (rules : ∀ rule ∈ pass.rules, rule.Careful ∧ rule.Fitting) {limit : Nat}
    (intact : g.Intact) (valid : g.Valid) (enough : g.weight ≤ limit) (journal : Journal) :
    ∃ stats after, pass.run limit ⟨g, journal⟩ = .ok stats after := by
  apply exists_runWithin_of_descent (fun h => h.Intact ∧ h.Valid) Graph.weight _ _
    ⟨intact, valid⟩ enough
  · rintro h rule region id op journal ⟨intact, valid⟩ offers
    rcases rules rule offers.member with ⟨careful, fitting⟩
    exact exists_applyAt_of_fitting offers careful fitting intact valid journal
  · rintro h k ⟨intact, valid⟩ rewrites
    have progress := rewrites.progress rules intact valid
    have lighter := progress.lighter
    exact ⟨⟨progress.intact, progress.valid valid⟩, by omega⟩

end Pass

/-! ## Pipelines -/

namespace Pipeline

open TensorCompiler.Graph

variable {g : Graph} {journal : Journal}

/-- A pipeline ends without fail if each of its passes may apply as many rules as the
graph weighs.  If it may run more rounds than that, one of them changes nothing. -/
theorem exists_run (pipeline : Pipeline)
    (rules : ∀ pass ∈ pipeline.passes, ∀ rule ∈ pass.rules, rule.Careful ∧ rule.Fitting)
    (intact : g.Intact) (valid : g.Valid) (enough : g.weight ≤ pipeline.maxApplied)
    (journal : Journal) :
    ∃ stats after, pipeline.run ⟨g, journal⟩ = .ok stats after ∧ stats.total ≤ g.weight ∧
      (g.weight < pipeline.maxRounds → stats.converged = true) := by
  have step : ∀ pass ∈ pipeline.passes, ∀ applied h k, g.Progress applied h →
      pass.Rewrites h k → g.Progress (applied + 1) k := by
    intro pass member applied h k earlier rewrites
    exact earlier.trans (rewrites.progress (rules pass member) earlier.intact (earlier.valid valid))
  have sweep : ∀ applied h, g.Progress applied h → g.Progress applied h.swept :=
    fun applied h earlier => earlier.trans earlier.intact.progress_swept
  have each : ∀ pass ∈ pipeline.passes, ∀ h journal, (∃ applied, g.Progress applied h) →
      ∃ stats after, pass.run pipeline.maxApplied ⟨h, journal⟩ = .ok stats after ∧
        ∃ applied, g.Progress applied after.graph := by
    rintro pass member h journal ⟨applied, earlier⟩
    have lighter := earlier.lighter
    have enough : h.weight ≤ pipeline.maxApplied := by omega
    rcases Pass.exists_run (rules pass member) earlier.intact (earlier.valid valid) enough
      journal with ⟨stats, after, done⟩
    exact ⟨stats, after, done, _,
      Pass.counted_run (g.Progress · ·) applied (step pass member) sweep earlier done⟩
  rcases exists_run_of_passes _ each ⟨0, .refl intact⟩ with ⟨stats, after, done, _⟩
  have progress : g.Progress stats.total after.graph :=
    counted_of_run (g.Progress · ·) step sweep (.refl intact) done
  have lighter := progress.lighter
  refine ⟨stats, after, done, by omega, ?_⟩
  intro rounds
  rcases converged_or_le_total done with converged | many
  · exact converged
  · omega

end Pipeline

/-! ## The passes of the targets -/

theorem Rule.IsBuiltIn.fitting {rule : Rule} (builtIn : rule.IsBuiltIn) : rule.Fitting := by
  rcases builtIn with member | ⟨quantization, rfl⟩
  · exact Sound.fitting (I := Interpretation.ofUnchanging) (sound_of_mem_valueKeeping member)
  · exact fitting_lowerConv2dToAccel quantization

namespace Target

theorem isBuiltIn_cpu : ∀ pass ∈ Target.cpu.passes, pass.IsBuiltIn := by
  intro pass member rule listed
  exact Or.inl (keepsValues_cpu pass member rule listed)

theorem isBuiltIn_accelerated (scratchpad : Nat) (quantization : Quantization) :
    ∀ pass ∈ (Target.accelerated scratchpad quantization).passes, pass.IsBuiltIn := by
  simp [Target.accelerated, Target.legalize, Target.foldRules, Target.fuse, Pass.IsBuiltIn,
    Rule.IsBuiltIn, Rule.valueKeeping]

/-- Rewriting terminates.  A graph was made with the typed constructors or read from a
script, and it has been swept.  Run the passes of the host, or those of the host with
an accelerator, and allow each of them eight times as many applications as there are
nodes.  Then no pass fails, not even at its limit; all of them together apply rules no
more than that many times, over all rounds; and if more rounds than that are allowed,
the pipeline stops because a round changes nothing. -/
theorem passes_terminate {target : Target} {g h : Graph} {removed maxRounds maxApplied : Nat}
    (known : target = .cpu ∨
      ∃ scratchpad quantization, target = .accelerated scratchpad quantization)
    (made : g.Made ∨ ∃ bytes, Graph.ofScript bytes = .ok g)
    (swept : Graph.removeUnreachable g = .ok removed h) (enough : 8 * h.size ≤ maxApplied)
    (journal : Journal) :
    ∃ stats after, Pipeline.run ⟨target.passes, maxRounds, maxApplied⟩ ⟨h, journal⟩ =
        .ok stats after ∧
      stats.total ≤ 8 * h.size ∧ (8 * h.size < maxRounds → stats.converged = true) := by
  have builtIn : ∀ pass ∈ target.passes, pass.IsBuiltIn := by
    rcases known with rfl | ⟨scratchpad, quantization, rfl⟩
    · exact isBuiltIn_cpu
    · exact isBuiltIn_accelerated scratchpad quantization
  have isMade : g.Made := by
    rcases made with made | ⟨bytes, read⟩
    · exact made
    · exact Graph.made_of_ofScript read
  rcases EStateM.Result.ok.inj (swept.symm.trans (Graph.removeUnreachable_eq g)) with ⟨_, rfl⟩
  have progress := isMade.intact.progress_swept
  have bound := Graph.weight_le progress.intact
  have enoughWeight : g.swept.weight ≤ maxApplied := by omega
  rcases Pipeline.exists_run ⟨target.passes, maxRounds, maxApplied⟩
      (fun pass member rule listed => ⟨(builtIn pass member rule listed).careful,
        (builtIn pass member rule listed).fitting⟩)
      progress.intact (progress.valid isMade.valid) enoughWeight journal with
    ⟨stats, after, done, total, converges⟩
  refine ⟨stats, after, done, by omega, ?_⟩
  intro rounds
  have enoughRounds : g.swept.weight < maxRounds := by omega
  exact converges enoughRounds

/-- A convolution that is marked for the accelerator, and a rectifier after it. -/
def convolveMarked : Edit Nat := do
  let image ← Graph.input "image" ⟨.f32, [1, 1, 3, 3]⟩
  let weights ← Graph.constant ⟨.f32, [1, 1, 1, 1]⟩ [0, 0, 128, 63]
  let bias ← Graph.constant ⟨.f32, [1]⟩ [0, 0, 0, 0]
  let convolved ← Graph.conv2d image weights bias {}
  Graph.updateMarks convolved.node fun marks => { marks with quantize := true }
  let rectified ← Graph.unary .relu convolved
  Graph.output "result" rectified

theorem made_convolveMarked {g : Graph} {id : Nat} (done : convolveMarked .empty = .ok id g) :
    g.Made := by
  simp only [convolveMarked, Stateful.bind_eq_ok] at done
  obtain ⟨_, _, image, _, _, weights, _, _, bias, _, _, convolved, _, _, marked, _, _, rectified,
    result⟩ := done
  exact .output (.unary (.updateMarks (.conv2d (.constant (.constant (.input .empty image)
    weights) bias) convolved) marked) rectified) result

/-- The six nodes may take forty-eight applications, and all passes of the accelerator
come to an end within forty-nine rounds. -/
theorem passes_terminate_convolveMarked :
    ∃ g h removed, convolveMarked .empty = .ok 5 g ∧
      Graph.removeUnreachable g = .ok removed h ∧ h.size = 6 ∧
      ∃ stats after, Pipeline.run
          ⟨(Target.accelerated defaultScratchpad defaultQuantization).passes, 49, 48⟩ ⟨h, #[]⟩ =
            .ok stats after ∧ stats.total ≤ 48 ∧ stats.converged = true := by
  have done : convolveMarked .empty = .ok 5 (Stateful.final convolveMarked .empty) := rfl
  have six : (Stateful.final convolveMarked .empty).swept.size = 6 := by decide +kernel
  generalize Stateful.final convolveMarked .empty = g at done six
  have swept := Graph.removeUnreachable_eq g
  have enough : 8 * g.swept.size ≤ 48 := by omega
  have rounds : 8 * g.swept.size < 49 := by omega
  rcases passes_terminate (Or.inr ⟨defaultScratchpad, defaultQuantization, rfl⟩)
    (Or.inl (made_convolveMarked done)) swept enough #[] with ⟨stats, after, ran, total, converges⟩
  exact ⟨g, g.swept, _, done, swept, six, stats, after, ran, Nat.le_trans total enough,
    converges rounds⟩

end Target
end TensorCompiler
