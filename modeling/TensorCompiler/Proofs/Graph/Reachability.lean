import Mathlib.Algebra.GroupWithZero.Nat
import TensorCompiler.Proofs.Graph.Links

namespace TensorCompiler

/-!
# Searches find exactly the dependencies

A search has a list of positions to look at, on which a position may stand more
than once, and a set of positions that it has seen.  In a turn it takes a position
off the list.  If it has seen the position it passes on; otherwise it visits the
position and puts what is read there on the list.

Each position that has not been seen holds a reserve of work, which is added to
the list when the position is visited.  The list together with the reserve loses
exactly one entry in every turn, so no search goes on for ever, and a supply of fuel
that covers both at the start lasts to the end.

All along, what a seen position reads has been seen or stands on the list, and
nothing is seen or listed but dependencies of the roots.  When the list is empty,
the positions seen are therefore those that the roots depend on.  Nothing of this
depends on the order in which positions are taken, on the links being stored alike
at both ends or on there being no cycle; links may even lead out of the graph.
-/

namespace NodeSet

/-! ## The reserve of the positions not yet seen -/

/-- The work that the positions below `bound` outside a set still hold. -/
def reserve (work : Nat → Nat) (bound : Nat) (seen : NodeSet) : Nat :=
  ((List.range bound).map fun id => if seen.contains id then 0 else work id).sum

private theorem sum_map_change {positions : List Nat} (before after : Nat → Nat) {id : Nat}
    (distinct : positions.Nodup) (member : id ∈ positions)
    (elsewhere : ∀ other, other ≠ id → after other = before other) :
    (positions.map after).sum + before id = (positions.map before).sum + after id := by
  induction positions with
  | nil => cases member
  | cons head rest inductionHypothesis =>
      rcases List.nodup_cons.mp distinct with ⟨headFresh, restDistinct⟩
      simp only [List.map_cons, List.sum_cons]
      rcases List.mem_cons.mp member with rfl | later
      · have unchanged : rest.map after = rest.map before := by
          apply List.map_congr_left
          intro other inRest
          exact elsewhere other fun same => headFresh (same ▸ inRest)
        rw [unchanged]
        omega
      · have different : head ≠ id := fun same => headFresh (same ▸ later)
        have restSum := inductionHypothesis restDistinct later
        rw [elsewhere head different]
        omega

theorem contains_insert_self (set : NodeSet) (id : Nat) : (set.insert id).contains id = true := by
  rw [contains_insert, if_pos rfl]

theorem contains_insert_of_ne {id other : Nat} (set : NodeSet) (different : other ≠ id) :
    (set.insert id).contains other = set.contains other := by
  rw [contains_insert, if_neg different]

theorem contains_insert_of_contains {set : NodeSet} {id other : Nat}
    (member : set.contains other = true) : (set.insert id).contains other = true := by
  rw [contains_insert]
  split
  · rfl
  · exact member

/-- Visiting a position takes its work out of the reserve. -/
theorem reserve_insert (work : Nat → Nat) {bound id : Nat} {seen : NodeSet} (inside : id < bound)
    (unseen : seen.contains id = false) :
    reserve work bound (seen.insert id) + work id = reserve work bound seen := by
  have change := sum_map_change (fun other => if seen.contains other then 0 else work other)
    (fun other => if (seen.insert id).contains other then 0 else work other)
    List.nodup_range (List.mem_range.mpr inside) (by
      intro other different
      rw [contains_insert_of_ne seen different])
  simp only [contains_insert_self, unseen, if_true, Bool.false_eq_true, if_false, Nat.add_zero]
    at change
  exact change

/-- A position that is not below the bound holds no work. -/
theorem reserve_insert_of_le (work : Nat → Nat) {bound id : Nat} (seen : NodeSet)
    (outside : bound ≤ id) : reserve work bound (seen.insert id) = reserve work bound seen := by
  unfold reserve
  congr 1
  apply List.map_congr_left
  intro other inside
  have different : other ≠ id :=
    Nat.ne_of_lt (Nat.lt_of_lt_of_le (List.mem_range.mp inside) outside)
  rw [contains_insert_of_ne seen different]

theorem reserve_empty (work : Nat → Nat) (bound : Nat) :
    reserve work bound (.empty bound) = ((List.range bound).map work).sum := by
  simp [reserve]

end NodeSet

namespace Graph

/-! ## The work of a search -/

/-- A position without a node leads nowhere. -/
theorem producerIds_eq_nil {g : Graph} {id : Nat} (outside : g.slots.size ≤ id) :
    g.producerIds id = [] := by
  unfold producerIds Graph.node?
  rw [Array.getElem?_eq_none outside]
  rfl

theorem linkCount_eq (g : Graph) :
    g.linkCount = ((List.range g.slots.size).map fun id => (g.producerIds id).length).sum := by
  unfold linkCount
  rw [List.sum_eq_foldr]
  congr 1
  apply List.ext_getElem
  · simp
  · intro id inside _
    have present : id < g.slots.size := by simpa using inside
    simp only [List.getElem_map, Array.getElem_toList, List.getElem_range, producerIds,
      Graph.node?, Array.getElem?_eq_getElem present, Option.join_some]
    cases g.slots[id] with
    | none => rfl
    | some node => simp

/-- Where a search stands. -/
structure Search where
  /-- The positions to look at. -/
  todo : List Nat
  seen : NodeSet

/-- The beginning of a search for what some roots depend on. -/
def searchFrom (g : Graph) (roots : List Nat) : Search :=
  ⟨roots, .empty g.slots.size⟩

/-- One turn of a search.  Which of the listed positions is taken is left open, and so
is the order in which those that it reads are listed. -/
inductive Turn (g : Graph) : Search → Search → Prop
  | pass {before after : List Nat} {seen : NodeSet} {id : Nat} (old : seen.contains id = true) :
      Turn g ⟨before ++ id :: after, seen⟩ ⟨before ++ after, seen⟩
  | visit {before after todo : List Nat} {seen : NodeSet} {id : Nat}
      (new : seen.contains id = false)
      (listed : todo.Perm (g.producerIds id ++ (before ++ after))) :
      Turn g ⟨before ++ id :: after, seen⟩ ⟨todo, seen.insert id⟩

/-- The entries that a search has before it: those on its list, and those that the
positions it has not seen would add. -/
def Search.work (g : Graph) (search : Search) : Nat :=
  search.todo.length + search.seen.reserve (fun id => (g.producerIds id).length) g.slots.size

theorem reserve_visit {g : Graph} {id : Nat} {seen : NodeSet} (new : seen.contains id = false) :
    (seen.insert id).reserve (fun id => (g.producerIds id).length) g.slots.size +
        (g.producerIds id).length =
      seen.reserve (fun id => (g.producerIds id).length) g.slots.size := by
  by_cases inside : id < g.slots.size
  · exact NodeSet.reserve_insert (fun id => (g.producerIds id).length) inside new
  · have outside : g.slots.size ≤ id := Nat.le_of_not_lt inside
    rw [producerIds_eq_nil outside, NodeSet.reserve_insert_of_le _ seen outside]
    rfl

/-- A turn does one entry of the work. -/
theorem Turn.work_eq {g : Graph} {search next : Search} (turn : g.Turn search next) :
    search.work g = next.work g + 1 := by
  cases turn with
  | pass old =>
      simp only [Search.work, List.length_append, List.length_cons]
      omega
  | visit new listed =>
      have spent := reserve_visit (g := g) new
      have added := listed.length_eq
      simp only [Search.work, List.length_append, List.length_cons] at added ⊢
      omega

/-- No search goes on for ever. -/
theorem acc_turn (g : Graph) (search : Search) :
    Acc (fun next search => g.Turn search next) search := by
  have shrinks : Subrelation (fun next search => g.Turn search next)
      (InvImage (· < ·) (Search.work g)) := by
    intro next search turn
    change next.work g < search.work g
    rw [turn.work_eq]
    exact Nat.lt_succ_self _
  exact (shrinks.wf (InvImage.wf (Search.work g) Nat.lt_wfRel.wf)).apply search

/-! ## What a search finds -/

/-- What holds throughout a search for the dependencies of some roots. -/
structure Pursues (g : Graph) (roots : List Nat) (search : Search) : Prop where
  started : ∀ root ∈ roots, root ∈ search.todo ∨ search.seen.contains root = true
  /-- What a seen position reads is not forgotten. -/
  closed : ∀ id source, search.seen.contains id = true → g.Needs id source →
    source ∈ search.todo ∨ search.seen.contains source = true
  sound : ∀ id, id ∈ search.todo ∨ search.seen.contains id = true →
    ∃ root ∈ roots, g.Depends root id

variable {g : Graph} {roots : List Nat} {search next : Search}

theorem pursues_searchFrom (g : Graph) (roots : List Nat) :
    g.Pursues roots (g.searchFrom roots) where
  started := fun _ member => Or.inl member
  closed := by
    intro id source seen
    rw [searchFrom, NodeSet.contains_empty] at seen
    cases seen
  sound := by
    intro id listed
    rcases listed with member | seen
    · exact ⟨id, member, .refl⟩
    · rw [searchFrom, NodeSet.contains_empty] at seen
      cases seen

/-- What stands on a list is a given entry or stands beside it. -/
private theorem mem_beside {before after : List Nat} {id other : Nat} :
    other ∈ before ++ id :: after ↔ other = id ∨ other ∈ before ++ after :=
  List.perm_middle.mem_iff.trans List.mem_cons

theorem Pursues.turn (pursues : g.Pursues roots search) (turn : g.Turn search next) :
    g.Pursues roots next := by
  cases turn with
  | @pass before after seen id old =>
      -- Nothing is lost with an entry whose position has been seen.
      have kept : ∀ other, other ∈ before ++ id :: after ∨ seen.contains other = true →
          other ∈ before ++ after ∨ seen.contains other = true := by
        intro other listed
        rcases listed with member | there
        · rcases mem_beside.mp member with rfl | beside
          · exact Or.inr old
          · exact Or.inl beside
        · exact Or.inr there
      refine ⟨fun root member => kept root (pursues.started root member),
        fun reader source there needs => kept source (pursues.closed reader source there needs), ?_⟩
      intro other listed
      exact pursues.sound other (listed.imp_left fun beside => mem_beside.mpr (Or.inr beside))
  | @visit before after todo seen id new listed =>
      have kept : ∀ other, other ∈ before ++ id :: after ∨ seen.contains other = true →
          other ∈ todo ∨ (seen.insert id).contains other = true := by
        intro other member
        rw [NodeSet.contains_insert]
        split
        · exact Or.inr rfl
        · next different =>
          apply member.imp_left
          intro waiting
          apply listed.mem_iff.mpr
          exact List.mem_append_right _ ((mem_beside.mp waiting).resolve_left different)
      have here : ∃ root ∈ roots, g.Depends root id :=
        pursues.sound id (Or.inl (mem_beside.mpr (Or.inl rfl)))
      refine ⟨fun root member => kept root (pursues.started root member), ?_, ?_⟩
      · intro reader source there needs
        rw [NodeSet.contains_insert] at there
        split at there
        · next same =>
          left
          apply listed.mem_iff.mpr
          rw [same] at needs
          exact List.mem_append_left _ needs
        · exact kept source (pursues.closed reader source there needs)
      · intro other member
        rcases member with waiting | there
        · rcases List.mem_append.mp (listed.mem_iff.mp waiting) with produced | beside
          · rcases here with ⟨root, isRoot, path⟩
            exact ⟨root, isRoot, path.tail produced⟩
          · exact pursues.sound other (Or.inl (mem_beside.mpr (Or.inr beside)))
        · rw [NodeSet.contains_insert] at there
          split at there
          · next same =>
            rw [same]
            exact here
          · exact pursues.sound other (Or.inr there)

theorem Pursues.turns (pursues : g.Pursues roots search)
    (turns : Relation.ReflTransGen g.Turn search next) : g.Pursues roots next := by
  induction turns with
  | refl => exact pursues
  | tail _ turn inductionHypothesis => exact inductionHypothesis.turn turn

/-- A search that is over has seen exactly what the roots depend on. -/
theorem Pursues.contains_iff {seen : NodeSet} {id : Nat} (pursues : g.Pursues roots ⟨[], seen⟩) :
    seen.contains id = true ↔ ∃ root ∈ roots, g.Depends root id := by
  constructor
  · intro there
    exact pursues.sound id (Or.inr there)
  · rintro ⟨root, isRoot, path⟩
    induction path with
    | refl => exact (pursues.started root isRoot).resolve_left List.not_mem_nil
    | tail _ needs inductionHypothesis =>
        exact (pursues.closed _ _ inductionHypothesis needs).resolve_left List.not_mem_nil

/-! ## The search with fuel -/

/-- With enough fuel a search is carried through to its end. -/
theorem turns_explore {fuel : Nat} {todo : List Nat} {seen : NodeSet}
    (enough : Search.work g ⟨todo, seen⟩ ≤ fuel) :
    Relation.ReflTransGen g.Turn ⟨todo, seen⟩ ⟨[], g.explore fuel todo seen⟩ := by
  induction fuel generalizing todo seen with
  | zero =>
      have nothing : todo = [] := by
        apply List.eq_nil_of_length_eq_zero
        simp only [Search.work] at enough
        omega
      subst nothing
      exact .refl
  | succ fuel inductionHypothesis =>
      cases todo with
      | nil => exact .refl
      | cons id rest =>
          have turn : g.Turn ⟨id :: rest, seen⟩
              (if seen.contains id then ⟨rest, seen⟩
                else ⟨g.producerIds id ++ rest, seen.insert id⟩) := by
            split
            · next old => exact @Turn.pass g [] rest seen id old
            · next new => exact @Turn.visit g [] rest _ seen id (eq_false_of_ne_true new) (.refl _)
          have less := turn.work_eq
          unfold explore
          split at turn
          · next old =>
            rw [if_pos old] at less ⊢
            exact .head turn (inductionHypothesis (by omega))
          · next new =>
            rw [if_neg new] at less ⊢
            exact .head turn (inductionHypothesis (by omega))

/-- A closure is what a search from its roots has seen in the end. -/
theorem turns_closure (g : Graph) (roots : List Nat) :
    Relation.ReflTransGen g.Turn (g.searchFrom roots) ⟨[], g.closure roots⟩ := by
  apply turns_explore
  apply Nat.le_of_eq
  rw [Search.work, NodeSet.reserve_empty, linkCount_eq]

/-- The closure of some roots holds the positions that they depend on, and nothing
else. -/
theorem contains_closure {id : Nat} :
    (g.closure roots).contains id = true ↔ ∃ root ∈ roots, g.Depends root id :=
  ((pursues_searchFrom g roots).turns (turns_closure g roots)).contains_iff

/-- `dependsOn` decides the dependency relation. -/
theorem dependsOn_iff {id target : Nat} :
    g.dependsOn id target = true ↔ g.Depends id target := by
  simp only [dependsOn, Bool.or_eq_true, beq_iff_eq, contains_closure, List.mem_singleton,
    exists_eq_left, or_iff_right_iff_imp]
  rintro rfl
  exact .refl

/-- The positions that some declared output depends on. -/
theorem contains_reachable {id : Nat} :
    g.reachable.contains id = true ↔ ∃ root ∈ g.outputs, g.Depends root id :=
  contains_closure

/-- Searches are right in every graph, with cycles or without, and whether or not its
links are stored alike at both ends.  No search goes on for ever, whatever listed
position it takes, and the one behind a closure is carried through to an empty list.  A
node depends on itself and on every node that a path of one or more links leads to, from
the input of a reader to the producer, and on nothing else.  The positions that are
reachable are those that some declared output depends on. -/
theorem searches_are_exact (g : Graph) :
    (∀ roots, Acc (fun next search => g.Turn search next) (g.searchFrom roots) ∧
      Relation.ReflTransGen g.Turn (g.searchFrom roots) ⟨[], g.closure roots⟩) ∧
    (∀ id target, g.dependsOn id target = true ↔ target = id ∨
      Relation.TransGen (fun reader producer =>
        ∃ index port, g.Reads ⟨reader, index⟩ ⟨producer, port⟩) id target) ∧
    ∀ target, g.reachable.contains target = true ↔
      ∃ output ∈ g.outputs, g.dependsOn output target = true := by
  refine ⟨fun roots => ⟨g.acc_turn _, g.turns_closure roots⟩, ?_, ?_⟩
  · intro id target
    have links : (fun reader producer => ∃ index port, g.Reads ⟨reader, index⟩ ⟨producer, port⟩) =
        g.Needs := by
      funext reader producer
      exact propext needs_iff.symm
    rw [links, dependsOn_iff, Depends, Relation.reflTransGen_iff_eq_or_transGen]
  · intro target
    simp only [contains_reachable, dependsOn_iff]

end Graph
end TensorCompiler
