import TensorCompiler.Pass
import TensorCompiler.Proofs.Outcome

namespace TensorCompiler
namespace Pass

/-!
# Searching for regions

A pass offers nodes to its rules in dependency order.  What the search finds is a
region that has passed the check, together with a rule of the pass that recognized
it at a node of one of its operators.  A search that finds nothing has tried every
rule at every node it was given.
-/

variable {g : Graph} {pass : Pass} {rule : Rule} {region : Region}

theorem tryRules_eq_some {id : Nat} {rules : List Rule}
    (found : (tryRules g id rules).2 = some (rule, region)) :
    rule ∈ rules ∧ rule.recognize g id = some region ∧ region.isReplaceable g = true := by
  induction rules with
  | nil => cases found
  | cons first rest inductionHypothesis =>
      have later : (tryRules g id rest).2 = some (rule, region) →
          rule ∈ first :: rest ∧ rule.recognize g id = some region ∧
            region.isReplaceable g = true := by
        intro foundLater
        rcases inductionHypothesis foundLater with ⟨member, facts⟩
        exact ⟨List.mem_cons_of_mem first member, facts⟩
      unfold tryRules at found
      split at found
      · exact later found
      · next recognized =>
        split at found
        · next checked =>
          rcases Prod.mk.inj (Option.some.inj found) with ⟨rfl, rfl⟩
          exact ⟨List.mem_cons_self, recognized, checked⟩
        · exact later found

theorem mem_rulesFor {opcode : Opcode} :
    rule ∈ pass.rulesFor opcode ↔ rule ∈ pass.rules ∧ opcode ∈ rule.anchors := by
  simp only [rulesFor, List.mem_flatMap, List.mem_replicate]
  constructor
  · rintro ⟨_, member, anchored, rfl⟩
    exact ⟨member, List.count_pos_iff.mp (Nat.pos_of_ne_zero anchored)⟩
  · rintro ⟨member, anchored⟩
    exact ⟨rule, member, Nat.ne_of_gt (List.count_pos_iff.mpr anchored), rfl⟩

/-- A rule of the pass has recognized a region at a node of one of its
operators, and the region has passed the check. -/
structure Offers (pass : Pass) (g : Graph) (rule : Rule) (region : Region) (id : Nat)
    (op : Operator) : Prop where
  member : rule ∈ pass.rules
  operator : g.op? id = some op
  anchored : op.opcode ∈ rule.anchors
  recognized : rule.recognize g id = some region
  checked : region.isReplaceable g = true

theorem tryNode_eq_some {id : Nat} (found : (pass.tryNode g id).2 = some (rule, region)) :
    ∃ op, pass.Offers g rule region id op := by
  unfold tryNode at found
  split at found
  · next op operator =>
    rcases tryRules_eq_some found with ⟨member, recognized, checked⟩
    rcases mem_rulesFor.mp member with ⟨listed, anchored⟩
    exact ⟨op, listed, operator, anchored, recognized, checked⟩
  · cases found

theorem tryNodes_eq_some {ids : List Nat}
    (found : (pass.tryNodes g ids).2 = some (rule, region)) :
    ∃ id op, pass.Offers g rule region id op := by
  induction ids with
  | nil => cases found
  | cons id rest inductionHypothesis =>
      unfold tryNodes at found
      split at found
      · next here =>
        refine ⟨id, tryNode_eq_some ?_⟩
        rw [here]
        exact found
      · exact inductionHypothesis found

theorem isReplaceable_of_tryRules {id : Nat} {rules : List Rule}
    (nothing : (tryRules g id rules).2 = none) (member : rule ∈ rules)
    (recognized : rule.recognize g id = some region) : region.isReplaceable g = false := by
  induction rules with
  | nil => cases member
  | cons first rest inductionHypothesis =>
      unfold tryRules at nothing
      rcases List.mem_cons.mp member with rfl | later
      · rw [recognized] at nothing
        dsimp only at nothing
        split at nothing
        · cases nothing
        · next unchecked => exact eq_false_of_ne_true unchecked
      · split at nothing
        · exact inductionHypothesis nothing later
        · split at nothing
          · cases nothing
          · exact inductionHypothesis nothing later

theorem not_offers_of_tryNodes {ids : List Nat} {id : Nat} {op : Operator}
    (nothing : (pass.tryNodes g ids).2 = none) (member : id ∈ ids) :
    ¬ pass.Offers g rule region id op := by
  intro offers
  induction ids with
  | nil => cases member
  | cons first rest inductionHypothesis =>
      unfold tryNodes at nothing
      split at nothing
      · cases nothing
      · next here =>
        rcases List.mem_cons.mp member with rfl | later
        · have tried : (tryRules g id (pass.rulesFor op.opcode)).2 = none := by
            have none := congrArg Prod.snd here
            rwa [tryNode, offers.operator] at none
          have unchecked := isReplaceable_of_tryRules tried
            (mem_rulesFor.mpr ⟨offers.member, offers.anchored⟩) offers.recognized
          rw [offers.checked] at unchecked
          cases unchecked
        · exact inductionHypothesis nothing later

theorem nextMatch_eq (pass : Pass) (g : Graph) (journal : Journal) :
    pass.nextMatch ⟨g, journal⟩ =
      .ok (pass.search g).2 ⟨g, journal ++ (pass.search g).1.toArray⟩ :=
  rfl

/-! ## One round of a run -/

section

variable {limit remaining : Nat} {stats : PassStats} {journal : Journal}

theorem runWithin_of_none (found : (pass.search g).2 = none) :
    pass.runWithin limit remaining stats ⟨g, journal⟩ =
      pass.finish stats ⟨g, journal ++ (pass.search g).1.toArray⟩ := by
  unfold runWithin
  rw [Stateful.bind_of_ok (nextMatch_eq pass g journal), found]

theorem runWithin_zero_of_some (found : (pass.search g).2 = some (rule, region)) :
    pass.runWithin limit 0 stats ⟨g, journal⟩ =
      (refuse (.passDiverged pass.name limit) : Work PassStats)
        ⟨g, journal ++ (pass.search g).1.toArray⟩ := by
  unfold runWithin
  rw [Stateful.bind_of_ok (nextMatch_eq pass g journal), found]

theorem runWithin_succ_of_some (found : (pass.search g).2 = some (rule, region)) :
    pass.runWithin limit (remaining + 1) stats ⟨g, journal⟩ =
      (pass.applyAt rule region >>= fun removed =>
        pass.runWithin limit remaining (stats.afterApplying rule.name removed))
          ⟨g, journal ++ (pass.search g).1.toArray⟩ := by
  rw [runWithin, Stateful.bind_of_ok (nextMatch_eq pass g journal), found]

end

end Pass
end TensorCompiler
