import TensorCompiler.Proofs.Construction.Sessions
import TensorCompiler.Proofs.Graph.Precedence

namespace TensorCompiler
namespace Graph

/-!
# The dependency order as a recursion

The walk works off an agenda, but the order that it finds is that of a recursion: to deal
with a node, deal with its producers one after another and then visit the node, unless it
has been visited before.  The recursion knows no agenda and no nodes that have been entered
and not yet left.

The agenda imitates the recursion as follows.  While the walk deals with a list of nodes,
what it has seen are the nodes visited so far and those that it is in the middle of.  Each
of the latter needs every node of the list, so in an acyclic graph none of them is on the
list.  A node of the list that has been seen has therefore been visited, and the walk passes
it over for the same reason as the recursion does.

A visit may stop the walk.  Since no node is visited twice, the answers of all visits of one
walk are a function of the node, also if they depend on what has been visited before.
-/

/-- Dealing with nodes one after another, where the nodes in `done` have been visited before
and those in `after` have been visited then, both in the order of their visits. -/
inductive DepthFirst (g : Graph) : (ids done after : List Nat) → Prop
  | nil {done : List Nat} : DepthFirst g [] done done
  | skip {id : Nat} {ids done after : List Nat} (old : id ∈ done)
      (rest : DepthFirst g ids done after) : DepthFirst g (id :: ids) done after
  | visit {id : Nat} {ids done between after : List Nat} (new : id ∉ done)
      (producers : DepthFirst g (g.producerIds id) done between)
      (rest : DepthFirst g ids (between ++ [id]) after) : DepthFirst g (id :: ids) done after

variable {β : Type}

/-- Working off an agenda to its end, or up to the visit that stops the walk. -/
inductive Finishes (g : Graph) (visit : Nat → Option β) :
    (agenda : List Visit) → (seen : NodeSet) → (visited : List Nat) → (result : Option β) → Prop
  | nil {seen : NodeSet} : Finishes g visit [] seen [] none
  | stop {id : Nat} {agenda : List Visit} {seen : NodeSet} {value : β}
      (stops : visit id = some value) :
      Finishes g visit (.leave id :: agenda) seen [id] (some value)
  | leave {id : Nat} {agenda : List Visit} {seen : NodeSet} {visited : List Nat}
      {result : Option β} (continues : visit id = none)
      (rest : Finishes g visit agenda seen visited result) :
      Finishes g visit (.leave id :: agenda) seen (id :: visited) result
  | skip {id : Nat} {agenda : List Visit} {seen : NodeSet} {visited : List Nat}
      {result : Option β} (skipped : seen.contains id = true ∨ g.contains id = false)
      (rest : Finishes g visit agenda seen visited result) :
      Finishes g visit (.enter id :: agenda) seen visited result
  | enter {id : Nat} {agenda : List Visit} {seen : NodeSet} {visited : List Nat}
      {result : Option β} (unseen : seen.contains id = false) (present : g.contains id = true)
      (rest : Finishes g visit
        ((g.unseenProducers (seen.insert id) id).map Visit.enter ++ Visit.leave id :: agenda)
        (seen.insert id) visited result) :
      Finishes g visit (.enter id :: agenda) seen visited result

variable {g : Graph} {ids done after : List Nat} {id : Nat}

/-! ## The recursion -/

/-- What has been visited stays visited. -/
theorem DepthFirst.exists_append (search : g.DepthFirst ids done after) :
    ∃ added, after = done ++ added := by
  induction search with
  | nil => exact ⟨[], (List.append_nil _).symm⟩
  | skip _ _ inductionHypothesis => exact inductionHypothesis
  | @visit id _ done between after _ _ _ producersHypothesis restHypothesis =>
      rcases producersHypothesis with ⟨below, between_eq⟩
      rcases restHypothesis with ⟨later, after_eq⟩
      refine ⟨below ++ [id] ++ later, ?_⟩
      rw [after_eq, between_eq, List.append_assoc, List.append_assoc, List.append_assoc]

theorem DepthFirst.mem_of_mem_done (search : g.DepthFirst ids done after) (member : id ∈ done) :
    id ∈ after := by
  rcases search.exists_append with ⟨added, rfl⟩
  exact List.mem_append_left added member

/-- Only what the nodes of the list depend on is visited. -/
theorem DepthFirst.exists_depends (search : g.DepthFirst ids done after) (member : id ∈ after) :
    id ∈ done ∨ ∃ root ∈ ids, g.Depends root id := by
  induction search with
  | nil => exact Or.inl member
  | skip _ _ inductionHypothesis =>
      rcases inductionHypothesis member with old | ⟨root, listed, depends⟩
      · exact Or.inl old
      · exact Or.inr ⟨root, List.mem_cons_of_mem _ listed, depends⟩
  | @visit first _ _ between _ _ _ _ producersHypothesis restHypothesis =>
      rcases restHypothesis member with visited | ⟨root, listed, depends⟩
      · rcases List.mem_append.mp visited with below | now
        · rcases producersHypothesis below with old | ⟨source, needs, depends⟩
          · exact Or.inl old
          · exact Or.inr ⟨first, List.mem_cons_self, .head needs depends⟩
        · rw [List.mem_singleton.mp now]
          exact Or.inr ⟨first, List.mem_cons_self, .refl⟩
      · exact Or.inr ⟨root, List.mem_cons_of_mem _ listed, depends⟩

theorem DepthFirst.cons {between : List Nat} (first : g.DepthFirst [id] done between)
    (rest : g.DepthFirst ids between after) : g.DepthFirst (id :: ids) done after := by
  cases first with
  | skip old finished =>
      cases finished
      exact .skip old rest
  | visit new producers finished =>
      cases finished
      exact .visit new producers rest

theorem exists_depthFirst_of_forall
    (each : ∀ id ∈ ids, ∀ done, ∃ after, g.DepthFirst [id] done after) (done : List Nat) :
    ∃ after, g.DepthFirst ids done after := by
  induction ids generalizing done with
  | nil => exact ⟨done, .nil⟩
  | cons id ids inductionHypothesis =>
      rcases List.forall_mem_cons.mp each with ⟨here, others⟩
      rcases here done with ⟨between, first⟩
      rcases inductionHypothesis others between with ⟨after, rest⟩
      exact ⟨after, first.cons rest⟩

/-- The recursion comes to an end: it descends from each node to nodes that stand before it
in the dependency order. -/
theorem exists_depthFirst_single (faithful : g.Faithful) (acyclic : g.Acyclic)
    {before rest : List Nat} (order : g.postorder = before ++ id :: rest) (done : List Nat) :
    ∃ after, g.DepthFirst [id] done after := by
  induction length : before.length using Nat.strongRecOn generalizing id before rest done with
  | ind count inductionHypothesis =>
      subst length
      by_cases old : id ∈ done
      · exact ⟨done, .skip old .nil⟩
      · have each : ∀ source ∈ g.producerIds id, ∀ done, ∃ after,
            g.DepthFirst [source] done after := by
          intro source needs done
          have earlier : source ∈ before := mem_before_of_postorder faithful acyclic order needs
          rcases List.append_of_mem earlier with ⟨first, second, rfl⟩
          have shorter : first.length < (first ++ source :: second).length := by
            rw [List.length_append, List.length_cons]
            omega
          rw [List.append_assoc, List.cons_append] at order
          exact inductionHypothesis first.length shorter order done rfl
        rcases exists_depthFirst_of_forall each done with ⟨between, producers⟩
        exact ⟨between ++ [id], .visit old producers .nil⟩

/-! ## The agenda without a bound -/

section

variable {visit : Nat → Option β} {fuel : Nat} {agenda : List Visit} {seen : NodeSet}
  {visited : List Nat} {result : Option β}

theorem Finishes.unique {others : List Nat} {other : Option β}
    (first : g.Finishes visit agenda seen visited result)
    (second : g.Finishes visit agenda seen others other) : visited = others ∧ result = other := by
  induction first generalizing others with
  | nil =>
      cases second
      exact ⟨rfl, rfl⟩
  | stop stops =>
      cases second with
      | stop again => exact ⟨rfl, stops.symm.trans again⟩
      | leave continues _ => simp [stops] at continues
  | leave continues _ inductionHypothesis =>
      cases second with
      | stop stops => simp [stops] at continues
      | leave _ rest =>
          rcases inductionHypothesis rest with ⟨rfl, rfl⟩
          exact ⟨rfl, rfl⟩
  | skip skipped _ inductionHypothesis =>
      cases second with
      | skip _ rest => exact inductionHypothesis rest
      | enter unseen present _ => simp [unseen, present] at skipped
  | enter unseen present _ inductionHypothesis =>
      cases second with
      | skip skipped _ => simp [unseen, present] at skipped
      | enter _ _ rest => exact inductionHypothesis rest

/-- With enough fuel the agenda is worked off. -/
theorem finishes_followAgenda (enough : g.CoversWalk fuel agenda seen) :
    g.Finishes visit agenda seen (g.followAgenda visit fuel agenda seen).1
      (g.followAgenda visit fuel agenda seen).2 := by
  induction fuel generalizing agenda seen with
  | zero =>
      have nothing : agenda = [] := by
        apply List.eq_nil_of_length_eq_zero
        unfold CoversWalk at enough
        omega
      subst nothing
      exact .nil
  | succ fuel inductionHypothesis =>
      match agenda with
      | [] => exact .nil
      | .leave id :: agenda =>
          rw [followAgenda]
          cases answer : visit id with
          | some value => exact .stop answer
          | none => exact .leave answer (inductionHypothesis enough.tail)
      | .enter id :: agenda =>
          rw [followAgenda]
          rcases opens_or_skipped g seen id with ⟨unseen, present⟩ | skipped
          · simp only [unseen, present, Bool.false_eq_true, if_false, if_true]
            exact .enter unseen present (inductionHypothesis (enough.enter unseen present))
          · have rest := inductionHypothesis enough.tail
            rcases skipped with old | missing
            · simp only [old, if_true]
              exact .skip (Or.inl old) rest
            · simp only [missing, Bool.false_eq_true, if_false, ite_self]
              exact .skip (Or.inr missing) rest

theorem finishes_walk (g : Graph) (visit : Nat → Option β) :
    g.Finishes visit (g.outputs.map Visit.enter) (.empty g.slots.size) (g.walk visit).1
      (g.walk visit).2 :=
  finishes_followAgenda g.coversWalk_start

end

/-! ## The agenda imitates the recursion -/

/-- What a walk has seen are the nodes that it has visited and those that it is in the
middle of. -/
def Tracks (seen : NodeSet) (done underWay : List Nat) : Prop :=
  ∀ id, seen.contains id = true ↔ id ∈ done ∨ id ∈ underWay

section

variable {seen : NodeSet} {underWay : List Nat}

theorem Tracks.unseen (tracks : Tracks seen done underWay) (new : id ∉ done)
    (apart : id ∉ underWay) : seen.contains id = false := by
  apply eq_false_of_ne_true
  intro old
  exact ((tracks id).mp old).elim new apart

theorem Tracks.open (tracks : Tracks seen done underWay) (id : Nat) :
    Tracks (seen.insert id) done (id :: underWay) := by
  intro other
  rw [NodeSet.contains_insert, List.mem_cons]
  by_cases same : other = id
  · simp [same]
  · simp [same, tracks other]

theorem Tracks.close (tracks : Tracks seen done (id :: underWay)) :
    Tracks seen (done ++ [id]) underWay := by
  intro other
  rw [tracks other, List.mem_cons, List.mem_append, List.mem_singleton, or_assoc]

/-- Nodes that a walk is to deal with next.  Whatever it is in the middle of needs them, and
those that are not on its agenda have been visited. -/
structure Due (g : Graph) (ids : List Nat) (listed : Nat → Bool) (done underWay : List Nat) :
    Prop where
  present : ∀ id ∈ ids, g.contains id = true
  above : ∀ reader ∈ underWay, ∀ id ∈ ids, Relation.TransGen g.Needs reader id
  omitted : ∀ id ∈ ids, listed id = false → id ∈ done

variable {listed : Nat → Bool}

/-- In an acyclic graph a walk never comes to a node that it is in the middle of. -/
theorem Due.not_mem_underWay (due : g.Due ids listed done underWay) (acyclic : g.Acyclic)
    (member : id ∈ ids) : id ∉ underWay :=
  fun again => acyclic id (due.above id again id member)

theorem Due.tail {later : List Nat} (due : g.Due (id :: ids) listed done underWay)
    (kept : ∀ other ∈ done, other ∈ later) : g.Due ids listed later underWay where
  present other member := due.present other (List.mem_cons_of_mem id member)
  above reader waiting other member :=
    due.above reader waiting other (List.mem_cons_of_mem id member)
  omitted other member unlisted :=
    kept other (due.omitted other (List.mem_cons_of_mem id member) unlisted)

theorem Due.producers (due : g.Due (id :: ids) listed done underWay) (faithful : g.Faithful)
    (acyclic : g.Acyclic) (opened : Tracks (seen.insert id) done (id :: underWay)) :
    g.Due (g.producerIds id) (fun source => !(seen.insert id).contains source) done
      (id :: underWay) := by
  have above : ∀ reader ∈ id :: underWay, ∀ source ∈ g.producerIds id,
      Relation.TransGen g.Needs reader source := by
    intro reader member source needs
    rcases List.mem_cons.mp member with rfl | waiting
    · exact .single needs
    · exact (due.above reader waiting id List.mem_cons_self).tail needs
  refine ⟨fun source needs => contains_iff.mpr (faithful.contains_of_needs needs), above, ?_⟩
  intro source needs old
  rw [Bool.not_eq_false'] at old
  apply ((opened source).mp old).resolve_right
  exact fun waiting => acyclic source (above source waiting source needs)

/-- The walk deals with a list of nodes as the recursion does. -/
theorem DepthFirst.finishes (search : g.DepthFirst ids done after) (faithful : g.Faithful)
    (acyclic : g.Acyclic) (due : g.Due ids listed done underWay)
    (tracks : Tracks seen done underWay) :
    ∃ added later, after = done ++ added ∧ Tracks later after underWay ∧
      ∀ agenda visited,
        g.Finishes (fun _ => (none : Option Unit)) agenda later visited none →
        g.Finishes (fun _ => (none : Option Unit))
          ((ids.filter listed).map Visit.enter ++ agenda) seen (added ++ visited) none := by
  induction search generalizing seen underWay listed with
  | @nil done =>
      exact ⟨[], seen, (List.append_nil done).symm, tracks, fun _ _ finishes => finishes⟩
  | @skip id ids done after old rest inductionHypothesis =>
      rcases inductionHypothesis (due.tail fun _ member => member) tracks with
        ⟨added, later, visitedThen, tracksThen, goesOn⟩
      refine ⟨added, later, visitedThen, tracksThen, ?_⟩
      intro agenda visited finishes
      have seenBefore : seen.contains id = true := (tracks id).mpr (Or.inl old)
      cases isListed : listed id with
      | false =>
          rw [List.filter_cons_of_neg (by simp [isListed])]
          exact goesOn agenda visited finishes
      | true =>
          rw [List.filter_cons_of_pos isListed]
          exact .skip (Or.inl seenBefore) (goesOn agenda visited finishes)
  | @visit id ids done between after new producers rest producersHypothesis restHypothesis =>
      have here : g.contains id = true := due.present id List.mem_cons_self
      have unseen : seen.contains id = false :=
        tracks.unseen new (due.not_mem_underWay acyclic List.mem_cons_self)
      have isListed : listed id = true := by
        apply eq_true_of_ne_false
        intro unlisted
        exact new (due.omitted id List.mem_cons_self unlisted)
      -- First the producers, with the node itself under way, then the rest of the list.
      rcases producersHypothesis (due.producers faithful acyclic (tracks.open id))
        (tracks.open id) with ⟨below, inner, visitedBelow, tracksInner, descends⟩
      have dueThen : g.Due ids listed (between ++ [id]) underWay :=
        due.tail fun _ member => List.mem_append_left [id] (producers.mem_of_mem_done member)
      rcases restHypothesis dueThen tracksInner.close with
        ⟨added, later, visitedThen, tracksThen, goesOn⟩
      refine ⟨below ++ id :: added, later, ?_, tracksThen, ?_⟩
      · rw [visitedThen, visitedBelow, List.append_assoc, List.append_assoc, List.singleton_append]
      · intro agenda visited finishes
        rw [List.filter_cons_of_pos isListed, List.append_assoc]
        exact .enter unseen here (descends _ _ (.leave rfl (goesOn agenda visited finishes)))

end

/-! ## The order that a walk finds -/

theorem tracks_empty (bound : Nat) : Tracks (.empty bound) [] [] := by
  intro id
  simp

theorem DepthFirst.eq_postorder (faithful : g.Faithful) (acyclic : g.Acyclic)
    (declared : ∀ id ∈ g.outputs, g.contains id = true)
    (search : g.DepthFirst g.outputs [] after) : after = g.postorder := by
  have due : g.Due g.outputs (fun _ => true) [] [] := by
    refine ⟨declared, ?_, ?_⟩
    · intro reader impossible
      cases impossible
    · intro id _ impossible
      cases impossible
  rcases search.finishes faithful acyclic due (tracks_empty g.slots.size) with
    ⟨added, later, rfl, _, finishes⟩
  have finished := finishes [] [] .nil
  rw [List.filter_true, List.append_nil, List.append_nil] at finished
  exact (finished.unique (g.finishes_walk _)).1

/-- The dependency order is the one that the recursion finds, from the declared outputs one
after another. -/
theorem depthFirst_postorder (faithful : g.Faithful) (acyclic : g.Acyclic)
    (declared : ∀ id ∈ g.outputs, g.contains id = true) :
    g.DepthFirst g.outputs [] g.postorder := by
  have each : ∀ id ∈ g.outputs, ∀ done, ∃ after, g.DepthFirst [id] done after := by
    intro id isOutput
    have visited : id ∈ g.postorder := mem_postorder_of_output isOutput (declared id isOutput)
    rcases List.append_of_mem visited with ⟨before, rest, order⟩
    exact exists_depthFirst_single faithful acyclic order
  rcases exists_depthFirst_of_forall each [] with ⟨after, search⟩
  rw [← search.eq_postorder faithful acyclic declared]
  exact search

theorem mem_postorder_iff (faithful : g.Faithful) (acyclic : g.Acyclic)
    (declared : ∀ id ∈ g.outputs, g.contains id = true) :
    id ∈ g.postorder ↔ g.reachable.contains id = true := by
  constructor
  · intro visited
    rcases (depthFirst_postorder faithful acyclic declared).exists_depends visited with
      impossible | reached
    · cases impossible
    · exact contains_reachable.mpr reached
  · exact mem_postorder_of_reachable faithful acyclic declared

/-! ## Walks that stop -/

/-- Visit the nodes of a list in turn until a visit returns a result. -/
def visitInTurn (visit : Nat → Option β) : List Nat → List Nat × Option β
  | [] => ([], none)
  | id :: rest =>
    match visit id with
    | some value => ([id], some value)
    | none => (id :: (visitInTurn visit rest).1, (visitInTurn visit rest).2)

section

variable {visit : Nat → Option β}

/-- A visit does not change what the walk would do next. -/
theorem followAgenda_eq (fuel : Nat) (agenda : List Visit) (seen : NodeSet) :
    g.followAgenda visit fuel agenda seen =
      visitInTurn visit (g.leavingOrder fuel agenda seen) := by
  induction fuel generalizing agenda seen with
  | zero => rfl
  | succ fuel inductionHypothesis =>
      match agenda with
      | [] => rfl
      | .leave id :: agenda =>
          cases visited : visit id with
          | some value => simp only [leavingOrder_leave, followAgenda, visitInTurn, visited]
          | none =>
              simp only [leavingOrder_leave, followAgenda, visitInTurn, visited,
                inductionHypothesis]
      | .enter id :: agenda =>
          rw [followAgenda]
          rcases opens_or_skipped g seen id with ⟨unseen, present⟩ | skipped
          · rw [leavingOrder_enter unseen present]
            simp only [unseen, present, Bool.false_eq_true, if_false, if_true]
            exact inductionHypothesis _ _
          · rw [leavingOrder_enter_skipped skipped, ← inductionHypothesis]
            rcases skipped with old | missing
            · simp only [old, if_true]
            · simp only [missing, Bool.false_eq_true, if_false, ite_self]

theorem visitInTurn_of_none {order : List Nat} (continues : ∀ id ∈ order, visit id = none) :
    visitInTurn visit order = (order, none) := by
  induction order with
  | nil => rfl
  | cons id rest inductionHypothesis =>
      rcases List.forall_mem_cons.mp continues with ⟨here, others⟩
      rw [visitInTurn, here, inductionHypothesis others]

theorem visitInTurn_of_some {before rest : List Nat} {value : β}
    (continues : ∀ id ∈ before, visit id = none) (stops : visit id = some value) :
    visitInTurn visit (before ++ id :: rest) = (before ++ [id], some value) := by
  induction before with
  | nil => rw [List.nil_append, visitInTurn, stops, List.nil_append]
  | cons first before inductionHypothesis =>
      rcases List.forall_mem_cons.mp continues with ⟨here, others⟩
      rw [List.cons_append, visitInTurn, here, inductionHypothesis others, List.cons_append]

end

end Graph

namespace Operation

/-- The dependency order.  Any requests whatever are sent to a graph that starts out empty,
and some of them may fail.  Then a walk comes to an end, whatever is done at the nodes; the
dependency order has each node that a declared output depends on once, and no other; a node
stands after everything that it reads; the recursion finds this order and no other; and a
walk visits the nodes in this order, all of them or up to the first at which it is stopped. -/
theorem dependency_order_of_session (operations : List Operation) :
    let g := performAll operations .empty
    (∀ {β : Type} (visit : Nat → Option β), g.Finishes visit (g.outputs.map Graph.Visit.enter)
        (.empty g.slots.size) (g.walk visit).1 (g.walk visit).2) ∧
      (g.postorder.Nodup ∧ ∀ id, id ∈ g.postorder ↔ g.reachable.contains id = true) ∧
      (∀ before id after, g.postorder = before ++ id :: after →
        ∀ source ∈ g.producerIds id, source ∈ before) ∧
      (∀ order, g.DepthFirst g.outputs [] order ↔ order = g.postorder) ∧
      ∀ {β : Type} (visit : Nat → Option β),
        ((∀ id ∈ g.postorder, visit id = none) → g.walk visit = (g.postorder, none)) ∧
          ∀ before id after value, g.postorder = before ++ id :: after →
            (∀ earlier ∈ before, visit earlier = none) → visit id = some value →
              g.walk visit = (before ++ [id], some value) := by
  intro g
  have intact : g.Intact := intact_performAll operations
  have declared : ∀ id ∈ g.outputs, g.contains id = true := fun _ => intact.contains_of_output
  have stepByStep : ∀ {β : Type} (visit : Nat → Option β),
      g.walk visit = Graph.visitInTurn visit g.postorder :=
    fun visit => Graph.followAgenda_eq _ _ _
  refine ⟨g.finishes_walk, ⟨g.postorder_nodup, fun id => ?_⟩, ?_, fun order => ⟨?_, ?_⟩, ?_⟩
  · exact Graph.mem_postorder_iff intact.toFaithful intact.acyclic declared
  · intro before id after order source needs
    exact Graph.mem_before_of_postorder intact.toFaithful intact.acyclic order needs
  · exact Graph.DepthFirst.eq_postorder intact.toFaithful intact.acyclic declared
  · rintro rfl
    exact Graph.depthFirst_postorder intact.toFaithful intact.acyclic declared
  · intro β visit
    constructor
    · intro continues
      rw [stepByStep, Graph.visitInTurn_of_none continues]
    · intro before id after value order continues stops
      rw [stepByStep, order, Graph.visitInTurn_of_some continues stops]

/-- Two values are made from one and then added, the later one first, and the earlier one is
a result as well. -/
def diamond : List Operation :=
  [.input "image" ⟨.f32, [2]⟩, .unary .relu ⟨0, 0⟩, .unary .abs ⟨0, 0⟩,
    .binary .add ⟨2, 0⟩ ⟨1, 0⟩, .output "sum" ⟨3, 0⟩, .output "part" ⟨1, 0⟩]

/-- The input is visited once, and a walk that is stopped at the rectifier has visited the
other operand of the sum. -/
theorem dependency_order_diamond :
    (performAll diamond .empty).postorder = [0, 2, 1, 3, 4, 5] ∧
      (performAll diamond .empty).walk (fun id => if id = 1 then some "here" else none) =
        ([0, 2, 1], some "here") := by
  have order : (performAll diamond .empty).postorder = [0, 2, 1, 3, 4, 5] := by decide +kernel
  rcases dependency_order_of_session diamond with ⟨_, _, _, _, stops⟩
  exact ⟨order, (stops _).2 [0, 2] 1 [3, 4, 5] "here" order (by decide) (by decide)⟩

end Operation
end TensorCompiler
