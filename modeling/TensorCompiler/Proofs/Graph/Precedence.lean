import TensorCompiler.Proofs.Graph.DependencyOrder

namespace TensorCompiler
namespace Graph

/-!
# Producers come first

The dependency order of an acyclic graph visits a node after everything that it
reads.  Entering a node puts its producers before its own leaving on the agenda, so
the only way to miss one of them is to pass it over because it has been seen.  A node
that has been seen has been left already, or its leaving is still on the agenda; but
whatever stands before a leaving on the agenda is needed by the node to be left, so
in the second case the node would need itself.

Together with the declared outputs, which are all visited, this makes the order a
list of exactly the nodes that some declared output depends on.
-/

/-- Each node of a list is preceded by what it reads, where the nodes in `done` stand
before all of them. -/
def Follows (g : Graph) : (done order : List Nat) → Prop
  | _, [] => True
  | done, id :: rest => (∀ source, g.Needs id source → source ∈ done) ∧ g.Follows (id :: done) rest

section

variable {g : Graph} {done : List Nat}

theorem Follows.mem_before {before after : List Nat} {id source : Nat}
    (follows : g.Follows done (before ++ id :: after)) (needs : g.Needs id source) :
    source ∈ done ∨ source ∈ before := by
  induction before generalizing done with
  | nil => exact Or.inl (follows.1 source needs)
  | cons first before inductionHypothesis =>
      rcases inductionHypothesis follows.2 with earlier | between
      · rcases List.mem_cons.mp earlier with rfl | old
        · exact Or.inr List.mem_cons_self
        · exact Or.inl old
      · exact Or.inr (List.mem_cons_of_mem first between)

/-! ## The agenda -/

/-- The node that an item of the agenda is about. -/
def Visit.id : Visit → Nat
  | .enter id => id
  | .leave id => id

/-- Whenever an agenda comes to leave a node, what the node reads is in `done` or has
had its turn on the agenda. -/
def Awaits (g : Graph) : (done : List Nat) → (agenda : List Visit) → Prop
  | _, [] => True
  | done, .enter id :: agenda => g.Awaits (id :: done) agenda
  | done, .leave id :: agenda =>
    (∀ source, g.Needs id source → source ∈ done) ∧ g.Awaits (id :: done) agenda

theorem Awaits.mono {agenda : List Visit} {more : List Nat} (awaits : g.Awaits done agenda)
    (kept : ∀ source ∈ done, source ∈ more ∨ ∀ id, ¬ g.Needs id source) :
    g.Awaits more agenda := by
  have keptCons : ∀ {done more : List Nat} (id : Nat),
      (∀ source ∈ done, source ∈ more ∨ ∀ id, ¬ g.Needs id source) →
      ∀ source ∈ id :: done, source ∈ id :: more ∨ ∀ id, ¬ g.Needs id source := by
    intro done more id kept source member
    rcases List.mem_cons.mp member with rfl | old
    · exact Or.inl List.mem_cons_self
    · exact (kept source old).imp_left (List.mem_cons_of_mem id)
  induction agenda generalizing done more with
  | nil => trivial
  | cons item agenda inductionHypothesis =>
      cases item with
      | enter id => exact inductionHypothesis awaits (keptCons id kept)
      | leave id =>
          refine ⟨?_, inductionHypothesis awaits.2 (keptCons id kept)⟩
          intro source needs
          apply (kept source (awaits.1 source needs)).resolve_right
          intro unneeded
          exact unneeded id needs

theorem awaits_enters {ids : List Nat} {agenda : List Visit} :
    g.Awaits done (ids.map Visit.enter ++ agenda) ↔ g.Awaits (ids.reverse ++ done) agenda := by
  induction ids generalizing done with
  | nil => rfl
  | cons id ids inductionHypothesis =>
      rw [List.reverse_cons, List.append_assoc]
      exact inductionHypothesis

/-- The state of a walk: what it has left, what it has seen and what it is about to do
fit together. -/
structure Underway (g : Graph) (left : List Nat) (agenda : List Visit) (seen : NodeSet) :
    Prop where
  known : ∀ id, seen.contains id = true → id ∈ left ∨ .leave id ∈ agenda
  nested : agenda.Pairwise fun item later => ∀ id, later = .leave id →
    Relation.TransGen g.Needs id item.id
  awaits : g.Awaits left agenda

variable {left : List Nat} {agenda : List Visit} {seen : NodeSet} {id : Nat}

theorem Underway.leave (underway : g.Underway left (.leave id :: agenda) seen) :
    g.Underway (id :: left) agenda seen where
  known := by
    intro other member
    rcases underway.known other member with old | pending
    · exact Or.inl (List.mem_cons_of_mem id old)
    · rcases List.mem_cons.mp pending with now | later
      · cases now
        exact Or.inl List.mem_cons_self
      · exact Or.inr later
  nested := (List.pairwise_cons.mp underway.nested).2
  awaits := underway.awaits.2

/-- In an acyclic graph a producer that has been seen has been left. -/
theorem Underway.mem_left (underway : g.Underway left (.enter id :: agenda) seen)
    (acyclic : g.Acyclic) {source : Nat} (needs : g.Needs id source)
    (old : (seen.insert id).contains source = true) : source ∈ left := by
  rw [NodeSet.contains_insert] at old
  split at old
  · next same =>
    rw [same] at needs
    exact absurd (Relation.TransGen.single needs) (acyclic id)
  · rcases underway.known source old with left | pending
    · exact left
    · rcases List.mem_cons.mp pending with impossible | later
      · cases impossible
      · have cycle := (List.pairwise_cons.mp underway.nested).1 _ later source rfl
        exact absurd (cycle.tail needs) (acyclic source)

theorem Underway.open (underway : g.Underway left (.enter id :: agenda) seen)
    (acyclic : g.Acyclic) :
    g.Underway left
      ((g.unseenProducers (seen.insert id) id).map Visit.enter ++ Visit.leave id :: agenda)
      (seen.insert id) where
  known := by
    intro other member
    rw [NodeSet.contains_insert] at member
    split at member
    · next same =>
      right
      rw [same]
      exact List.mem_append_right _ List.mem_cons_self
    · rcases underway.known other member with old | pending
      · exact Or.inl old
      · right
        apply List.mem_append_right
        apply List.mem_cons_of_mem
        exact (List.mem_cons.mp pending).resolve_left (fun same => by cases same)
  nested := by
    rcases List.pairwise_cons.mp underway.nested with ⟨needed, rest⟩
    refine List.pairwise_append.mpr ⟨?_, List.pairwise_cons.mpr ⟨needed, rest⟩, ?_⟩
    · rw [List.pairwise_map]
      exact List.pairwise_of_forall fun _ _ _ impossible => by cases impossible
    · -- The producers stand before the leaving of their reader, which stands before the rest.
      intro item member later following target isLeaving
      rcases List.mem_map.mp member with ⟨source, listed, rfl⟩
      have needs := (mem_unseenProducers.mp listed).1
      rcases List.mem_cons.mp following with now | rest
      · rw [now] at isLeaving
        cases isLeaving
        exact .single needs
      · exact (needed later rest target isLeaving).tail needs
  awaits := by
    have afterwards : g.Awaits (id :: left) agenda := underway.awaits
    apply awaits_enters.mpr
    refine ⟨?_, afterwards.mono ?_⟩
    · intro source needs
      cases old : (seen.insert id).contains source with
      | true => exact List.mem_append_right _ (underway.mem_left acyclic needs old)
      | false =>
          exact List.mem_append_left left
            (List.mem_reverse.mpr (mem_unseenProducers.mpr ⟨needs, old⟩))
    · intro source member
      rcases List.mem_cons.mp member with rfl | old
      · exact Or.inl List.mem_cons_self
      · exact Or.inl (List.mem_cons_of_mem _ (List.mem_append_right _ old))

/-- In an acyclic graph only a node that has been left is skipped, unless nobody needs
it. -/
theorem Underway.skip (underway : g.Underway left (.enter id :: agenda) seen)
    (faithful : g.Faithful) (acyclic : g.Acyclic)
    (skipped : seen.contains id = true ∨ g.contains id = false) :
    g.Underway left agenda seen where
  known := by
    intro other member
    rcases underway.known other member with old | pending
    · exact Or.inl old
    · exact Or.inr ((List.mem_cons.mp pending).resolve_left fun same => by cases same)
  nested := (List.pairwise_cons.mp underway.nested).2
  awaits := by
    have afterwards : g.Awaits (id :: left) agenda := underway.awaits
    apply afterwards.mono
    intro source member
    rcases List.mem_cons.mp member with rfl | old
    · rcases skipped with old | missing
      · rcases underway.known source old with left | pending
        · exact Or.inl left
        · rcases List.mem_cons.mp pending with impossible | later
          · cases impossible
          · have cycle := (List.pairwise_cons.mp underway.nested).1 _ later source rfl
            exact absurd cycle (acyclic source)
      · right
        intro reader needs
        rw [contains_iff.mpr (faithful.contains_of_needs needs)] at missing
        cases missing
    · exact Or.inl old

theorem Underway.follows (underway : g.Underway left agenda seen) (faithful : g.Faithful)
    (acyclic : g.Acyclic) (fuel : Nat) : g.Follows left (g.leavingOrder fuel agenda seen) := by
  induction fuel generalizing left agenda seen with
  | zero => trivial
  | succ fuel inductionHypothesis =>
      match agenda with
      | [] => trivial
      | .leave id :: agenda =>
          rw [leavingOrder_leave]
          exact ⟨underway.awaits.1, inductionHypothesis underway.leave⟩
      | .enter id :: agenda =>
          rcases opens_or_skipped g seen id with ⟨unseen, present⟩ | skipped
          · rw [leavingOrder_enter unseen present]
            exact inductionHypothesis (underway.open acyclic)
          · rw [leavingOrder_enter_skipped skipped]
            exact inductionHypothesis (underway.skip faithful acyclic skipped)

end

/-! ## The whole order -/

section

variable {g : Graph} {id source : Nat}

theorem underway_start (g : Graph) :
    g.Underway [] (g.outputs.map Visit.enter) (.empty g.slots.size) where
  known := by simp
  nested := by
    rw [List.pairwise_map]
    exact List.pairwise_of_forall fun _ _ _ impossible => by cases impossible
  awaits := by
    rw [← List.append_nil (g.outputs.map Visit.enter)]
    exact awaits_enters.mpr trivial

/-- A node is visited after everything that it reads. -/
theorem mem_before_of_postorder (faithful : g.Faithful) (acyclic : g.Acyclic)
    {before after : List Nat} (order : g.postorder = before ++ id :: after)
    (needs : g.Needs id source) : source ∈ before := by
  have follows := g.underway_start.follows faithful acyclic
    (g.outputs.length + g.linkCount + g.slots.size)
  rw [← postorder_eq, order] at follows
  exact (follows.mem_before needs).resolve_left List.not_mem_nil

/-- Only nodes are visited. -/
theorem contains_of_mem_leavingOrder {fuel : Nat} {agenda : List Visit} {seen : NodeSet}
    (member : id ∈ g.leavingOrder fuel agenda seen) :
    .leave id ∈ agenda ∨ g.contains id = true := by
  induction fuel generalizing agenda seen with
  | zero => cases member
  | succ fuel inductionHypothesis =>
      match agenda with
      | [] => cases member
      | .leave other :: agenda =>
          rw [leavingOrder_leave] at member
          rcases List.mem_cons.mp member with rfl | later
          · exact Or.inl List.mem_cons_self
          · exact (inductionHypothesis later).imp_left (List.mem_cons_of_mem _)
      | .enter other :: agenda =>
          rcases opens_or_skipped g seen other with ⟨unseen, present⟩ | skipped
          · rw [leavingOrder_enter unseen present] at member
            rcases inductionHypothesis member with pending | found
            · rcases List.mem_append.mp pending with entering | leaving
              · rcases List.mem_map.mp entering with ⟨_, _, impossible⟩
                cases impossible
              · rcases List.mem_cons.mp leaving with now | later
                · cases now
                  exact Or.inr present
                · exact Or.inl (List.mem_cons_of_mem _ later)
            · exact Or.inr found
          · rw [leavingOrder_enter_skipped skipped] at member
            exact (inductionHypothesis member).imp_left (List.mem_cons_of_mem _)

theorem contains_of_mem_postorder (member : id ∈ g.postorder) : g.contains id = true := by
  rw [postorder_eq] at member
  rcases contains_of_mem_leavingOrder member with pending | found
  · rcases List.mem_map.mp pending with ⟨_, _, impossible⟩
    cases impossible
  · exact found

/-- Every node that a declared output depends on is visited. -/
theorem mem_postorder_of_reachable (faithful : g.Faithful) (acyclic : g.Acyclic)
    (declared : ∀ root ∈ g.outputs, g.contains root = true)
    (kept : g.reachable.contains id = true) : id ∈ g.postorder := by
  obtain ⟨root, isOutput, path⟩ := contains_reachable.mp kept
  clear kept
  induction path with
  | refl => exact mem_postorder_of_output isOutput (declared root isOutput)
  | @tail reader source path needs inductionHypothesis =>
      obtain ⟨before, after, order⟩ := List.append_of_mem inductionHypothesis
      rw [order]
      exact List.mem_append_left _ (mem_before_of_postorder faithful acyclic order needs)

end

end Graph
end TensorCompiler
