import TensorCompiler.Graph.Order
import TensorCompiler.Proofs.Graph.Reachability

namespace TensorCompiler
namespace Graph

/-!
# The dependency order

The walk behind `postorder` never stops early, so it works off its whole
agenda.  A node is entered at most once and left once for every time it is
entered, which makes the order free of repetitions.  The agenda together with
the reserve of the nodes not yet entered bounds the items still to be taken,
so the fuel of the walk covers every declared output.
-/

/-- The nodes in the order in which a walk that never stops leaves them. -/
def leavingOrder (g : Graph) (fuel : Nat) (agenda : List Visit) (seen : NodeSet) : List Nat :=
  (g.followAgenda (fun _ => (none : Option Unit)) fuel agenda seen).1

section

variable {g : Graph} {fuel id : Nat} {agenda : List Visit} {seen : NodeSet}

theorem leavingOrder_leave :
    g.leavingOrder (fuel + 1) (.leave id :: agenda) seen =
      id :: g.leavingOrder fuel agenda seen :=
  rfl

theorem leavingOrder_enter_skipped
    (skipped : seen.contains id = true ∨ g.contains id = false) :
    g.leavingOrder (fuel + 1) (.enter id :: agenda) seen = g.leavingOrder fuel agenda seen := by
  unfold leavingOrder
  rw [followAgenda]
  rcases skipped with old | missing
  · simp only [old, if_true]
  · simp only [missing, Bool.false_eq_true, if_false, ite_self]

theorem leavingOrder_enter (unseen : seen.contains id = false) (present : g.contains id = true) :
    g.leavingOrder (fuel + 1) (.enter id :: agenda) seen =
      g.leavingOrder fuel
        ((g.unseenProducers (seen.insert id) id).map Visit.enter ++ Visit.leave id :: agenda)
        (seen.insert id) := by
  unfold leavingOrder
  rw [followAgenda]
  simp only [unseen, present, Bool.false_eq_true, if_false, if_true]

theorem mem_unseenProducers {source : Nat} :
    source ∈ g.unseenProducers seen id ↔ g.Needs id source ∧ seen.contains source = false := by
  rw [unseenProducers, List.mem_filter, Bool.not_eq_true']
  rfl

end

/-- Entering a node opens it or is skipped. -/
theorem opens_or_skipped (g : Graph) (seen : NodeSet) (id : Nat) :
    (seen.contains id = false ∧ g.contains id = true) ∨
      (seen.contains id = true ∨ g.contains id = false) := by
  cases seen.contains id <;> cases g.contains id <;> simp

/-! ## No repetitions -/

/-- The nodes that an agenda is still to leave. -/
def leavings (agenda : List Visit) : List Nat :=
  agenda.filterMap fun
    | .enter _ => none
    | .leave id => some id

theorem leavings_append (first second : List Visit) :
    leavings (first ++ second) = leavings first ++ leavings second :=
  List.filterMap_append

theorem leavings_map_enter (ids : List Nat) : leavings (ids.map Visit.enter) = [] := by
  simp [leavings]

theorem lt_size_of_contains {g : Graph} {id : Nat} (present : g.contains id = true) :
    id < g.slots.size := by
  rcases contains_iff.mp present with ⟨node, found⟩
  exact lt_size_of_node? found

/-- A walk leaves no node twice: what it leaves is on the agenda to be left, or
was not seen when the walk came to it. -/
theorem leavingOrder_nodup (g : Graph) (fuel : Nat) (agenda : List Visit) (seen : NodeSet)
    (distinct : (leavings agenda).Nodup)
    (entered : ∀ id ∈ leavings agenda, seen.contains id = true) :
    (g.leavingOrder fuel agenda seen).Nodup ∧
      ∀ id ∈ g.leavingOrder fuel agenda seen,
        id ∈ leavings agenda ∨ seen.contains id = false := by
  induction fuel generalizing agenda seen with
  | zero => exact ⟨List.nodup_nil, fun id member => absurd member List.not_mem_nil⟩
  | succ fuel inductionHypothesis =>
      match agenda with
      | [] => exact ⟨List.nodup_nil, fun id member => absurd member List.not_mem_nil⟩
      | .leave id :: agenda =>
          have unfolded : leavings (.leave id :: agenda) = id :: leavings agenda := rfl
          rw [unfolded] at distinct entered ⊢
          rcases List.nodup_cons.mp distinct with ⟨idFresh, restDistinct⟩
          rcases inductionHypothesis agenda seen restDistinct
            (fun other member => entered other (List.mem_cons_of_mem _ member)) with
            ⟨restNodup, origin⟩
          rw [leavingOrder_leave]
          constructor
          · refine List.nodup_cons.mpr ⟨?_, restNodup⟩
            intro again
            rcases origin id again with later | unseen
            · exact idFresh later
            · rw [entered id List.mem_cons_self] at unseen
              cases unseen
          · intro other member
            rcases List.mem_cons.mp member with rfl | later
            · exact Or.inl List.mem_cons_self
            · exact (origin other later).imp_left (List.mem_cons_of_mem _)
      | .enter id :: agenda =>
          have unfolded : leavings (.enter id :: agenda) = leavings agenda := rfl
          rw [unfolded] at distinct entered ⊢
          rcases opens_or_skipped g seen id with ⟨unseen, present⟩ | skipped
          · rw [leavingOrder_enter unseen present]
            have idFresh : id ∉ leavings agenda := by
              intro member
              rw [entered id member] at unseen
              cases unseen
            have nextLeavings : leavings ((g.unseenProducers (seen.insert id) id).map Visit.enter ++
                Visit.leave id :: agenda) = id :: leavings agenda := by
              rw [leavings_append, leavings_map_enter]
              rfl
            obtain ⟨nodup, origin⟩ := inductionHypothesis
              ((g.unseenProducers (seen.insert id) id).map Visit.enter ++ Visit.leave id :: agenda)
              (seen.insert id)
              (nextLeavings ▸ List.nodup_cons.mpr ⟨idFresh, distinct⟩) (by
                intro other member
                rw [nextLeavings] at member
                rcases List.mem_cons.mp member with rfl | old
                · exact seen.contains_insert_self other
                · exact NodeSet.contains_insert_of_contains (entered other old))
            refine ⟨nodup, ?_⟩
            intro other member
            rcases origin other member with left | unseenOther
            · rw [nextLeavings] at left
              rcases List.mem_cons.mp left with rfl | old
              · exact Or.inr unseen
              · exact Or.inl old
            · right
              cases seenOther : seen.contains other with
              | false => rfl
              | true =>
                  rw [NodeSet.contains_insert_of_contains seenOther] at unseenOther
                  cases unseenOther
          · rw [leavingOrder_enter_skipped skipped]
            exact inductionHypothesis agenda seen distinct entered

theorem postorder_eq (g : Graph) :
    g.postorder = g.leavingOrder (g.outputs.length + g.linkCount + g.slots.size)
      (g.outputs.map Visit.enter) (.empty g.slots.size) :=
  rfl

/-- No node is visited twice. -/
theorem postorder_nodup (g : Graph) : g.postorder.Nodup := by
  rw [postorder_eq]
  refine (leavingOrder_nodup g _ _ _ ?_ ?_).1
  · rw [leavings_map_enter]
    exact List.nodup_nil
  · intro id member
    rw [leavings_map_enter] at member
    cases member

/-! ## Nothing is left out -/

/-- The items that entering a node adds to the agenda. -/
def visitWork (g : Graph) (id : Nat) : Nat :=
  (g.producerIds id).length + 1

/-- The bound on the items that are left in the middle of a walk. -/
def CoversWalk (g : Graph) (fuel : Nat) (agenda : List Visit) (seen : NodeSet) : Prop :=
  agenda.length + seen.reserve g.visitWork g.slots.size ≤ fuel

theorem CoversWalk.tail {g : Graph} {fuel : Nat} {item : Visit} {agenda : List Visit}
    {seen : NodeSet} (enough : g.CoversWalk (fuel + 1) (item :: agenda) seen) :
    g.CoversWalk fuel agenda seen := by
  unfold CoversWalk at *
  simp only [List.length_cons] at enough
  omega

theorem CoversWalk.enter {g : Graph} {fuel id : Nat} {agenda : List Visit} {seen : NodeSet}
    (enough : g.CoversWalk (fuel + 1) (.enter id :: agenda) seen)
    (unseen : seen.contains id = false) (present : g.contains id = true) :
    g.CoversWalk fuel
      ((g.unseenProducers (seen.insert id) id).map Visit.enter ++ Visit.leave id :: agenda)
      (seen.insert id) := by
  have listed : (g.unseenProducers (seen.insert id) id).length ≤ (g.producerIds id).length :=
    List.length_filter_le _ _
  have spent := NodeSet.reserve_insert g.visitWork (lt_size_of_contains present) unseen
  unfold CoversWalk at *
  unfold visitWork at spent enough ⊢
  simp only [List.length_cons, List.length_append, List.length_map] at *
  omega

/-- With enough fuel, every node on the agenda is left, unless it was seen
before the walk came to it. -/
theorem mem_leavingOrder (g : Graph) (fuel : Nat) (agenda : List Visit) (seen : NodeSet)
    (enough : g.CoversWalk fuel agenda seen) (id : Nat)
    (listed : .leave id ∈ agenda ∨
      (.enter id ∈ agenda ∧ seen.contains id = false ∧ g.contains id = true)) :
    id ∈ g.leavingOrder fuel agenda seen := by
  induction fuel generalizing agenda seen with
  | zero =>
      have nothing : agenda = [] := by
        apply List.eq_nil_of_length_eq_zero
        unfold CoversWalk at enough
        omega
      subst nothing
      rcases listed with impossible | ⟨impossible, _⟩ <;> cases impossible
  | succ fuel inductionHypothesis =>
      match agenda with
      | [] => rcases listed with impossible | ⟨impossible, _⟩ <;> cases impossible
      | .leave other :: agenda =>
          rw [leavingOrder_leave]
          by_cases same : id = other
          · exact same ▸ List.mem_cons_self
          · refine List.mem_cons_of_mem _ (inductionHypothesis agenda seen enough.tail ?_)
            rcases listed with left | ⟨enters, rest⟩
            · rcases List.mem_cons.mp left with now | later
              · exact absurd (Visit.leave.inj now) same
              · exact Or.inl later
            · rcases List.mem_cons.mp enters with impossible | later
              · cases impossible
              · exact Or.inr ⟨later, rest⟩
      | .enter other :: agenda =>
          rcases opens_or_skipped g seen other with opens | skipped
          · rw [leavingOrder_enter opens.1 opens.2]
            refine inductionHypothesis _ _ (enough.enter opens.1 opens.2) ?_
            by_cases same : id = other
            · subst same
              exact Or.inl (List.mem_append_right _ List.mem_cons_self)
            · rcases listed with left | ⟨enters, unseen, present⟩
              · rcases List.mem_cons.mp left with impossible | later
                · cases impossible
                · exact Or.inl (List.mem_append_right _ (List.mem_cons_of_mem _ later))
              · rcases List.mem_cons.mp enters with now | later
                · exact absurd (Visit.enter.inj now) same
                · refine Or.inr ⟨List.mem_append_right _ (List.mem_cons_of_mem _ later), ?_,
                    present⟩
                  rw [NodeSet.contains_insert_of_ne seen same]
                  exact unseen
          · rw [leavingOrder_enter_skipped skipped]
            apply inductionHypothesis agenda seen enough.tail
            rcases listed with left | ⟨enters, unseen, present⟩
            · rcases List.mem_cons.mp left with impossible | later
              · cases impossible
              · exact Or.inl later
            · rcases List.mem_cons.mp enters with now | later
              · cases now
                rcases skipped with old | missing
                · rw [old] at unseen
                  cases unseen
                · rw [missing] at present
                  cases present
              · exact Or.inr ⟨later, unseen, present⟩

/-- The fuel of a walk covers it from the start. -/
theorem coversWalk_start (g : Graph) :
    g.CoversWalk (g.outputs.length + g.linkCount + g.slots.size) (g.outputs.map Visit.enter)
      (.empty g.slots.size) := by
  unfold CoversWalk visitWork
  rw [NodeSet.reserve_empty, List.length_map, linkCount_eq]
  have split : ∀ (positions : List Nat),
      (positions.map fun id => (g.producerIds id).length + 1).sum =
        (positions.map fun id => (g.producerIds id).length).sum + positions.length := by
    intro positions
    induction positions with
    | nil => rfl
    | cons head rest inductionHypothesis =>
        simp only [List.map_cons, List.sum_cons, List.length_cons, inductionHypothesis]
        omega
  rw [split, List.length_range]
  omega

/-- Every declared output that is there is visited. -/
theorem mem_postorder_of_output {g : Graph} {id : Nat} (declared : id ∈ g.outputs)
    (present : g.contains id = true) : id ∈ g.postorder := by
  rw [postorder_eq]
  exact mem_leavingOrder g _ _ _ g.coversWalk_start id
    (Or.inr ⟨List.mem_map_of_mem declared, NodeSet.contains_empty _ _, present⟩)

end Graph
end TensorCompiler
