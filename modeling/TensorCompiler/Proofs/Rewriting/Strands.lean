import TensorCompiler.Proofs.Rewriting.Exchange
import TensorCompiler.Proofs.Rewriting.NormalForm

namespace TensorCompiler
namespace Graph

/-!
# Strands of transposes

A strand is a graph with one input and one declared output, and nothing between the two but
transposes, each of which reads the one before it.  It is described by its transposes, from the
output back to the input.

Every node of a strand lies on the one way from the output to the input.  So a transpose is read
by the next one and by nothing else, and a region of transposes is a piece of that way.  If
other transposes are put in place of a piece, the result is a strand again.
-/

variable {g h : Graph}

/-! ## Ways through transposes -/

/-- A way back from one outlet to another through transposes, given by the position and the axes
of each of them. -/
inductive Turns (g : Graph) : Outlet → List (Nat × List Nat) → Outlet → Prop
  | stop {outlet : Outlet} : Turns g outlet [] outlet
  | turn {id : Nat} {axes : List Nat} {operand source : Outlet} {earlier : List (Nat × List Nat)}
      (operator : g.op? id = some (.transpose axes)) (reads : g.Reads ⟨id, 0⟩ operand)
      (rest : Turns g operand earlier source) : Turns g ⟨id, 0⟩ ((id, axes) :: earlier) source

section

variable {top source : Outlet} {passed : List (Nat × List Nat)}

theorem turns_append {later earlier : List (Nat × List Nat)} :
    g.Turns top (later ++ earlier) source ↔
      ∃ middle, g.Turns top later middle ∧ g.Turns middle earlier source := by
  constructor
  · intro way
    induction later generalizing top with
    | nil => exact ⟨top, .stop, way⟩
    | cons first rest inductionHypothesis =>
        cases way with
        | turn operator reads way =>
            rcases inductionHypothesis way with ⟨middle, front, back⟩
            exact ⟨middle, .turn operator reads front, back⟩
  · rintro ⟨middle, front, back⟩
    induction front with
    | stop => exact back
    | turn operator reads _ inductionHypothesis =>
        exact .turn operator reads (inductionHypothesis back)

theorem Turns.start (way : g.Turns top passed source) :
    top.node ∈ passed.map Prod.fst ∨ top = source := by
  cases way with
  | stop => exact Or.inr rfl
  | turn => exact Or.inl List.mem_cons_self

theorem Turns.operator_of_mem (way : g.Turns top passed source) :
    ∀ turn ∈ passed, g.op? turn.1 = some (.transpose turn.2) := by
  induction way with
  | stop => exact List.forall_mem_nil _
  | turn operator _ _ inductionHypothesis =>
      exact List.forall_mem_cons.mpr ⟨operator, inductionHypothesis⟩

theorem Turns.depends_of_mem (way : g.Turns top passed source) :
    ∀ turn ∈ passed, g.Depends top.node turn.1 := by
  induction way with
  | stop => exact List.forall_mem_nil _
  | turn _ reads _ inductionHypothesis =>
      refine List.forall_mem_cons.mpr ⟨.refl, fun turn member => ?_⟩
      exact .head reads.needs (inductionHypothesis turn member)

theorem Turns.depends (way : g.Turns top passed source) : g.Depends top.node source.node := by
  induction way with
  | stop => exact .refl
  | turn _ reads _ inductionHypothesis => exact .head reads.needs inductionHypothesis

/-- No transpose is passed twice. -/
theorem Turns.nodup (way : g.Turns top passed source) (acyclic : g.Acyclic) :
    (passed.map Prod.fst).Nodup := by
  induction way with
  | stop => exact List.nodup_nil
  | @turn id _ _ _ earlier _ reads rest inductionHypothesis =>
      rw [List.map_cons, List.nodup_cons]
      refine ⟨fun again => ?_, inductionHypothesis⟩
      rcases List.mem_map.mp again with ⟨turn, member, same⟩
      have back := rest.depends_of_mem turn member
      rw [same] at back
      exact acyclic.not_depends_of_reads reads back

/-- The way in another graph where the same transposes read other outlets. -/
theorem Turns.redirect (change : Outlet → Outlet) (way : g.Turns top passed source)
    (operators : ∀ turn ∈ passed, h.op? turn.1 = g.op? turn.1)
    (reads : ∀ turn ∈ passed, ∀ operand, g.Reads ⟨turn.1, 0⟩ operand →
      h.Reads ⟨turn.1, 0⟩ (change operand))
    (kept : ∀ turn ∈ passed, change ⟨turn.1, 0⟩ = ⟨turn.1, 0⟩) :
    h.Turns (change top) passed (change source) := by
  induction way with
  | stop => exact .stop
  | turn operator readsOperand _ inductionHypothesis =>
      rcases List.forall_mem_cons.mp operators with ⟨sameHere, sameOthers⟩
      rcases List.forall_mem_cons.mp reads with ⟨readsHere, readsOthers⟩
      rcases List.forall_mem_cons.mp kept with ⟨keptHere, keptOthers⟩
      rw [keptHere]
      exact .turn (sameHere.trans operator) (readsHere _ readsOperand)
        (inductionHypothesis sameOthers readsOthers keptOthers)

/-- A sweep leaves a way that starts at a survivor. -/
theorem Turns.swept (way : g.Turns top passed source)
    (kept : g.reachable.contains top.node = true) :
    g.swept.Turns top passed source ∧ g.reachable.contains source.node = true := by
  induction way with
  | stop => exact ⟨.stop, kept⟩
  | turn operator reads _ inductionHypothesis =>
      rcases inductionHypothesis (reachable_closed kept reads.needs) with ⟨rest, last⟩
      refine ⟨.turn ?_ (reads_restrict.mpr ⟨kept, reads⟩) rest, last⟩
      rw [Graph.swept, op?_restrict, if_pos kept]
      exact operator

end

/-! ## Nodes with one operand -/

theorem Typed.index_lt (typed : g.Typed) {id index : Nat} {op : Operator} {outlet : Outlet}
    (operator : g.op? id = some op) (reads : g.Reads ⟨id, index⟩ outlet) :
    index < op.inputCount := by
  rcases Option.map_eq_some_iff.mp operator with ⟨node, found, rfl⟩
  rcases typed id node found with ⟨sources, types, connected, sourcesTyped, accepted⟩
  have inside := index_lt_of_reads found reads
  rwa [connected, List.length_map, sourcesTyped.length_eq, accepted.counts.1] at inside

/-- A node that takes one operand needs one other node. -/
theorem Typed.needs_unique (typed : g.Typed) {id first second : Nat} {op : Operator}
    (operator : g.op? id = some op) (one : op.inputCount ≤ 1) (needsFirst : g.Needs id first)
    (needsSecond : g.Needs id second) : first = second := by
  rcases needs_iff.mp needsFirst with ⟨index, port, reads⟩
  rcases needs_iff.mp needsSecond with ⟨other, otherPort, readsToo⟩
  have inside := typed.index_lt operator reads
  have insideToo := typed.index_lt operator readsToo
  have same : index = other := by omega
  rw [same] at reads
  exact congrArg Outlet.node (reads_unique reads readsToo)

theorem Turns.mem_of_needs {top source : Outlet} {passed : List (Nat × List Nat)} {id other : Nat}
    (way : g.Turns top passed source) (typed : g.Typed) (member : id ∈ passed.map Prod.fst)
    (needs : g.Needs id other) : other ∈ passed.map Prod.fst ∨ other = source.node := by
  induction way with
  | stop => cases member
  | turn operator reads rest inductionHypothesis =>
      rcases List.mem_cons.mp member with rfl | further
      · rcases typed.needs_unique operator (Nat.le_refl 1) needs reads.needs with rfl
        exact rest.start.imp (List.mem_cons_of_mem _) (congrArg Outlet.node)
      · exact (inductionHypothesis further).imp_left (List.mem_cons_of_mem _)

/-! ## Strands -/

/-- One input, one declared output, and on the way from the output back to the input the given
transposes, all of the same rank. -/
structure Strand (g : Graph) (source sink rank : Nat) (turns : List (Nat × List Nat)) : Prop where
  intact : g.Intact
  valid : g.Valid
  swept : g.swept = g
  declared : g.outputs = [sink]
  entry : g.op? source = some .input
  way : ∃ top, g.Reads ⟨sink, 0⟩ top ∧ g.Turns top turns ⟨source, 0⟩
  permutes : ∀ turn ∈ turns, turn.2.Perm (List.range rank)

namespace Strand

variable {source sink rank : Nat} {turns : List (Nat × List Nat)}

theorem exit (strand : g.Strand source sink rank turns) : g.op? sink = some .output :=
  strand.intact.mem_outputs.mp (strand.declared ▸ List.mem_singleton_self sink)

theorem depends (strand : g.Strand source sink rank turns) {id : Nat}
    (present : g.contains id = true) : g.Depends sink id := by
  rcases contains_iff.mp present with ⟨node, found⟩
  rcases exists_root_of_swept strand.swept found with ⟨root, declared, path⟩
  rw [strand.declared] at declared
  exact List.mem_singleton.mp declared ▸ path

/-- All nodes of a strand lie on the way from its output to its input. -/
theorem mem (strand : g.Strand source sink rank turns) {id : Nat}
    (present : g.contains id = true) : id = sink ∨ id ∈ turns.map Prod.fst ∨ id = source := by
  rcases strand.way with ⟨top, readsTop, way⟩
  have start := way.start.imp_right (congrArg Outlet.node)
  have typed : g.Typed := strand.valid.typed
  have path := strand.depends present
  clear present
  induction path with
  | refl => exact Or.inl rfl
  | tail _ needs inductionHypothesis =>
      right
      rcases inductionHypothesis with rfl | passed | rfl
      · rcases typed.needs_unique strand.exit (Nat.le_refl 1) needs readsTop.needs with rfl
        exact start
      · exact way.mem_of_needs typed passed needs
      · rcases needs_iff.mp needs with ⟨index, port, reads⟩
        exact absurd (typed.index_lt strand.entry reads) (Nat.not_lt_zero index)

theorem inputCount_le (strand : g.Strand source sink rank turns) {id : Nat} {op : Operator}
    (operator : g.op? id = some op) : op.inputCount ≤ 1 := by
  rcases strand.way with ⟨top, -, way⟩
  rcases strand.mem (contains_of_op? operator) with rfl | passed | rfl
  · rcases Option.some.inj (operator.symm.trans strand.exit) with rfl
    exact Nat.le_refl 1
  · rcases List.mem_map.mp passed with ⟨turn, member, rfl⟩
    rcases Option.some.inj (operator.symm.trans (way.operator_of_mem turn member)) with rfl
    exact Nat.le_refl 1
  · rcases Option.some.inj (operator.symm.trans strand.entry) with rfl
    exact Nat.zero_le 1

theorem needs_unique (strand : g.Strand source sink rank turns) {id first second : Nat}
    (needsFirst : g.Needs id first) (needsSecond : g.Needs id second) : first = second := by
  have present := needsFirst.contains
  rw [contains_eq, Option.isSome_iff_exists] at present
  rcases present with ⟨op, operator⟩
  exact Typed.needs_unique strand.valid.typed operator (strand.inputCount_le operator) needsFirst
    needsSecond

/-- What two nodes need is needed by one of them, not by both. -/
theorem eq_of_needs (strand : g.Strand source sink rank turns) {first second shared : Nat}
    (needsFirst : g.Needs first shared) (needsSecond : g.Needs second shared) :
    first = second := by
  have acyclic := strand.intact.acyclic
  -- A way from one of them to the other goes through what both need, and back to it.
  have apart : ∀ {reader other : Nat}, g.Needs reader shared → g.Needs other shared →
      g.Depends reader other → reader = other := by
    intro reader other needs needsToo path
    rcases path.cases_head with same | ⟨next, needsNext, rest⟩
    · exact same
    · rcases strand.needs_unique needsNext needs with rfl
      exact absurd (.head' needsToo rest) (acyclic other)
  have unique : Relator.RightUnique g.Needs := fun _ _ _ => strand.needs_unique
  have reachesFirst := strand.depends needsFirst.contains
  have reachesSecond := strand.depends needsSecond.contains
  rcases reachesFirst.total_of_right_unique unique reachesSecond with path | path
  · exact apart needsFirst needsSecond path
  · exact (apart needsSecond needsFirst path).symm

/-- A transpose that another one reads is read by nothing else. -/
theorem chained (strand : g.Strand source sink rank turns) {outlet : Outlet} {id : Nat}
    {first second : List Nat} (operator : g.op? id = some (.transpose second))
    (producer : g.op? outlet.node = some (.transpose first)) (reads : g.Reads ⟨id, 0⟩ outlet) :
    g.Chained outlet id (.transpose first) (.transpose second) where
  operator := operator
  producer := producer
  reads := reads
  alone := by
    have typed : g.Typed := strand.valid.typed
    rcases strand.valid.linked.exists_wire reads with ⟨wire, wired, listed⟩
    refine readers_eq_ok.mpr ⟨wire, wired, ?_⟩
    have only : ∀ reader ∈ wire.readers, reader = ⟨id, 0⟩ := by
      intro reader member
      have readsToo := (strand.valid.linked.mem_readers wired reader).mp member
      have same := strand.eq_of_needs readsToo.needs reads.needs
      rcases reader with ⟨node, index⟩
      rcases same with rfl
      have inside := typed.index_lt operator readsToo
      rw [Nat.lt_one_iff.mp inside]
    have distinct := strand.intact.nodup_readers wired
    have same : wire.readers.Perm [⟨id, 0⟩] := by
      apply (List.perm_ext_iff_of_nodup distinct (List.nodup_singleton _)).mpr
      intro reader
      rw [List.mem_singleton]
      constructor
      · exact only reader
      · rintro rfl
        exact listed
    exact List.perm_singleton.mp same

end Strand

/-! ## One piece in place of another -/

/-- The nodes of a graph are still there, and what read one outlet reads another one. -/
structure Spliced (g : Graph) (old new : Outlet) (h : Graph) : Prop where
  operators : ∀ id, g.contains id = true → h.op? id = g.op? id
  reads : ∀ inlet outlet, g.Reads inlet outlet →
    h.Reads inlet (Rule.redirected [(old, new)] outlet)
  outputs : h.outputs = g.outputs

/-- A way that does not pass the node of the old outlet is still there, except that the new
outlet takes the place of the old one at its ends. -/
theorem Spliced.turns {old new top source : Outlet} {passed : List (Nat × List Nat)}
    (spliced : g.Spliced old new h) (way : g.Turns top passed source)
    (apart : ∀ turn ∈ passed, turn.1 ≠ old.node) :
    h.Turns (Rule.redirected [(old, new)] top) passed (Rule.redirected [(old, new)] source) := by
  apply way.redirect
  · intro turn member
    exact spliced.operators _ (contains_of_op? (way.operator_of_mem turn member))
  · intro turn _ operand reads
    exact spliced.reads _ operand reads
  · intro turn member
    exact Rule.redirected_of_ne fun same => apart turn member (congrArg Outlet.node same)

namespace Strand

variable {source sink rank : Nat}

/-- Other transposes can be put between what reads a transpose and what it leads back to. -/
theorem splice {id : Nat} {top new middle : Outlet} {axes : List Nat}
    {turns later between earlier fresh : List (Nat × List Nat)}
    (strand : g.Strand source sink rank turns) (readsTop : g.Reads ⟨sink, 0⟩ top)
    (front : g.Turns top later ⟨id, 0⟩) (piece : g.Turns ⟨id, 0⟩ ((id, axes) :: between) middle)
    (back : g.Turns middle earlier ⟨source, 0⟩) (spliced : g.Spliced ⟨id, 0⟩ new h)
    (sustains : g.Sustains h) (patch : h.Turns new fresh middle)
    (permutes : ∀ turn ∈ later ++ fresh ++ earlier, turn.2.Perm (List.range rank)) :
    h.swept.Strand source sink rank (later ++ fresh ++ earlier) := by
  have acyclic := strand.intact.acyclic
  have whole : g.Turns top (later ++ ((id, axes) :: between ++ earlier)) ⟨source, 0⟩ :=
    turns_append.mpr ⟨_, front, turns_append.mpr ⟨middle, piece, back⟩⟩
  have distinct := whole.nodup acyclic
  rw [List.map_append, List.nodup_append] at distinct
  have apartLater : ∀ turn ∈ later, turn.1 ≠ id := fun turn member =>
    distinct.2.2 turn.1 (List.mem_map_of_mem member) id List.mem_cons_self
  have apartEarlier : ∀ turn ∈ earlier, turn.1 ≠ id := by
    intro turn member same
    apply (List.nodup_cons.mp distinct.2.1).1
    exact List.mem_map.mpr ⟨turn, List.mem_append_right between member, same⟩
  have notMiddle : middle ≠ ⟨id, 0⟩ := by
    cases piece with
    | turn _ reads rest =>
        rintro rfl
        exact acyclic.not_depends_of_reads reads rest.depends
  have notSource : (⟨source, 0⟩ : Outlet) ≠ ⟨id, 0⟩ := by
    intro same
    have operator : g.op? id = _ := piece.operator_of_mem (id, axes) List.mem_cons_self
    rw [← (Outlet.mk.inj same).1, strand.entry] at operator
    cases operator
  have frontNow := spliced.turns front apartLater
  rw [Rule.redirected_self] at frontNow
  have backNow := spliced.turns back apartEarlier
  rw [Rule.redirected_of_ne notMiddle, Rule.redirected_of_ne notSource] at backNow
  have wayNow : h.Turns (Rule.redirected [(⟨id, 0⟩, new)] top) (later ++ fresh ++ earlier)
      ⟨source, 0⟩ :=
    turns_append.mpr ⟨middle, turns_append.mpr ⟨new, frontNow, patch⟩, backNow⟩
  have readsNow := spliced.reads _ top readsTop
  have sinkKept : h.reachable.contains sink = true := by
    refine contains_reachable.mpr ⟨sink, ?_, .refl⟩
    rw [spliced.outputs, strand.declared]
    exact List.mem_singleton_self sink
  rcases wayNow.swept (reachable_closed sinkKept readsNow.needs) with ⟨wayLeft, sourceKept⟩
  have sweeps := sustains.trans sustains.intact.sustains_swept
  constructor
  · exact sweeps.intact
  · exact sweeps.valid strand.valid
  · exact swept_swept h
  · exact sweeps.outputs.trans strand.declared
  · rw [Graph.swept, op?_restrict, if_pos sourceKept,
      spliced.operators source (contains_of_op? strand.entry)]
    exact strand.entry
  · exact ⟨_, reads_restrict.mpr ⟨sinkKept, readsNow⟩, wayLeft⟩
  · exact permutes

end Strand
end Graph

namespace Rule.Installed

variable {rule : Rule} {g built after : Graph} {region : Region} {sources : List Outlet}
  {old new : Outlet}

theorem reads (installed : Installed rule g region sources [new] built after)
    (outputs : region.outputs = [old]) {inlet : Inlet} {outlet : Outlet}
    (reads : built.Reads inlet outlet) : after.Reads inlet (redirected [(old, new)] outlet) := by
  have rewired := installed.rewired
  rw [outputs] at rewired
  exact (rewired.reads inlet _ (installed.growth.linked.not_orphan inlet)).mpr ⟨outlet, reads, rfl⟩

theorem spliced (installed : Installed rule g region sources [new] built after)
    (outputs : region.outputs = [old]) : g.Spliced old new after := by
  constructor
  · intro id present
    rcases Graph.contains_iff.mp present with ⟨node, found⟩
    rcases installed.growth.exists_signature found with ⟨kept, keptFound, same⟩
    rw [installed.rewired.toRelinked.inventory.operators, Graph.op?, Graph.op?, found, keptFound]
    exact congrArg (fun signature => some signature.op) same
  · intro inlet outlet reads
    exact installed.reads outputs ((installed.growth.reads_old reads.needs.lt_size).mpr reads)
  · exact installed.rewired.nodes.outputs.trans installed.declared

end Rule.Installed
end TensorCompiler
