import TensorCompiler.Proofs.Rewriting.HostPasses
import TensorCompiler.Proofs.Rewriting.Strands

namespace TensorCompiler

/-!
# Chains of transposes

A pass that joins adjacent transposes and drops those without effect turns a chain of transposes
into one of them, or into nothing.  Which rule applies where depends on the axes, and so does
the order in which the chain shrinks.  What all applications have in common is that the graph
stays a strand, that it loses one transpose, and that from every position the strand leads back
to the same axis of the input.  When no rule applies any more, at most one transpose is left, and
its axes are those that the chain led back to from the start.
-/

namespace Axes

/-- The axis that some transposes in a row, the first of them first, bring to a position. -/
def fetched (chain : List (List Nat)) (position : Nat) : Nat :=
  chain.foldr (fun axes position => axes.getD position 0) position

/-- The one reordering that has the effect of some in a row. -/
def composite (rank : Nat) (chain : List (List Nat)) : List Nat :=
  (List.range rank).map (fetched chain)

/-- The same axis, followed back along a way through transposes. -/
def followed (turns : List (Nat × List Nat)) (position : Nat) : Nat :=
  turns.foldl (fun position turn => turn.2.getD position 0) position

section

variable {later earlier : List (Nat × List Nat)} {rank position : Nat}

theorem followed_append : followed (later ++ earlier) position =
    followed earlier (followed later position) :=
  List.foldl_append

theorem followed_eq_fetched {turns : List (Nat × List Nat)} {chain : List (List Nat)}
    (listed : turns.map Prod.snd = chain.reverse) : followed turns position =
      fetched chain position := by
  rw [fetched, ← List.foldl_reverse, ← listed, List.foldl_map, followed]

theorem followed_lt {turns : List (Nat × List Nat)}
    (permutes : ∀ turn ∈ turns, turn.2.Perm (List.range rank)) (inside : position < rank) :
    followed turns position < rank := by
  induction turns generalizing position with
  | nil => exact inside
  | cons turn rest inductionHypothesis =>
      rcases List.forall_mem_cons.mp permutes with ⟨here, others⟩
      exact inductionHypothesis others (getD_lt here inside)

/-- A piece of a way has been replaced by one with a transpose less, which leads back to the same
axes. -/
inductive Shortened (rank : Nat) : List (Nat × List Nat) → List (Nat × List Nat) → Prop
  | intro {later piece fresh earlier : List (Nat × List Nat)}
      (length : fresh.length + 1 = piece.length)
      (same : ∀ place < rank, followed fresh place = followed piece place) :
      Shortened rank (later ++ piece ++ earlier) (later ++ fresh ++ earlier)

theorem Shortened.length_eq {turns shorter : List (Nat × List Nat)}
    (shortened : Shortened rank turns shorter) : shorter.length + 1 = turns.length := by
  cases shortened with
  | intro length _ =>
      simp only [List.length_append, ← length]
      omega

theorem Shortened.followed_eq {turns shorter : List (Nat × List Nat)}
    (shortened : Shortened rank turns shorter)
    (permutes : ∀ turn ∈ turns, turn.2.Perm (List.range rank)) (inside : position < rank) :
    followed shorter position = followed turns position := by
  cases shortened with
  | intro _ same =>
      simp only [List.forall_mem_append] at permutes
      simp only [followed_append]
      rw [same _ (followed_lt permutes.1.1 inside)]

theorem composite_eq {chain : List (List Nat)} {axes : List Nat} (length : axes.length = rank)
    (same : ∀ position < rank, axes.getD position 0 = fetched chain position) :
    composite rank chain = axes := by
  apply eq_of_getD
  · rw [composite, List.length_map, List.length_range, length]
  · intro position inside
    rw [length] at inside
    rw [same position inside, composite]
    simp [inside]

end

end Axes

/-- Two transposes are joined by one new node on what the first of them reads. -/
theorem Rule.appended_of_foldTwoTransposes {g built : Graph} {region : Region}
    {sources replacements : List Outlet} {producer id : Nat} {first second : List Nat}
    {operand : Outlet} (intact : g.Intact) (recognized : Region.chain g producer id = some region)
    (firstOperator : g.op? producer = some (.transpose first))
    (secondOperator : g.op? id = some (.transpose second))
    (below : ∀ axis ∈ second, axis < first.length) (captured : sources[0]? = some operand)
    (builds : foldTwoTransposes.build ⟨region, sources⟩ g = .ok replacements built) :
    replacements = [⟨g.slots.size, 0⟩] ∧ ∃ name type, g.Appended
      (Graph.connectedNode (.transpose (Graph.permuteDims second first)) name [operand] [type])
      built := by
  rcases node_chain sources recognized with ⟨firstNode, secondNode⟩
  simp only [foldTwoTransposes, Stateful.bind_eq_ok, Stateful.get_eq_ok, Stateful.lift_eq_ok,
    firstNode, secondNode] at builds
  rcases builds with ⟨_, _, ⟨rfl, rfl⟩, _, _, ⟨same, rfl⟩, _, _, ⟨again, rfl⟩, rest⟩
  rw [← Except.ok.inj same, ← Except.ok.inj again, firstOperator, secondOperator] at rest
  simp only [composeAxes_eq_ok below, Stateful.bind_eq_ok, Stateful.lift_eq_ok,
    Stateful.pure_eq_ok, Match.source, entryAt_eq_ok, captured] at rest
  rcases rest with ⟨_, _, ⟨composed, rfl⟩, _, _, ⟨taken, rfl⟩, new, _, transposes, rfl, rfl⟩
  rw [← Except.ok.inj composed, ← Option.some.inj taken] at transposes
  rcases intact.appended_of_applies (Graph.transpose_eq_ok.mp transposes) with
    ⟨rfl, name, type, appended⟩
  exact ⟨rfl, name, type, appended⟩

namespace Graph

variable {g : Graph} {source sink rank : Nat} {turns : List (Nat × List Nat)}

/-! ## One application -/

namespace Strand

/-- A strand, taken apart at one of its transposes. -/
theorem exists_split (strand : g.Strand source sink rank turns) {id : Nat} {axes : List Nat}
    (operator : g.op? id = some (.transpose axes)) :
    ∃ later earlier top operand, turns = later ++ (id, axes) :: earlier ∧
      g.Reads ⟨sink, 0⟩ top ∧ g.Turns top later ⟨id, 0⟩ ∧ g.Reads ⟨id, 0⟩ operand ∧
      g.Turns operand earlier ⟨source, 0⟩ := by
  rcases strand.way with ⟨top, readsTop, way⟩
  rcases strand.mem (contains_of_op? operator) with rfl | passed | rfl
  · cases operator.symm.trans strand.exit
  · rcases List.mem_map.mp passed with ⟨⟨_, found⟩, member, rfl⟩
    have again : g.op? _ = _ := way.operator_of_mem _ member
    rcases Operator.transpose.inj (Option.some.inj (operator.symm.trans again)) with rfl
    rcases List.append_of_mem member with ⟨later, earlier, rfl⟩
    rcases turns_append.mp way with ⟨_, front, back⟩
    cases back with
    | turn _ reads rest => exact ⟨later, earlier, top, _, rfl, readsTop, front, reads, rest⟩
  · cases operator.symm.trans strand.entry

variable {pass : Pass} {region : Region} {id : Nat} {op : Operator} {journal : Journal}
  {after : Workbench}

theorem exists_installed {rule : Rule} (strand : g.Strand source sink rank turns)
    (careful : rule.Careful) (offers : pass.Offers g rule region id op)
    (applied : rule.apply region ⟨g, journal⟩ = .ok () after) :
    region.Replaceable g ∧ g.Sustains after.graph ∧ ∃ sources replacements built,
      Rule.Installed rule g region sources replacements built after.graph := by
  have bounded := Region.bounded_of_isReplaceable offers.checked
  refine ⟨bounded.replaceable strand.valid.linked, ?_, ?_⟩
  · exact (Rule.ends_apply careful strand.intact offers.operator offers.anchored
      offers.recognized bounded).of_ok applied
  · exact Rule.exists_installed careful strand.intact strand.valid offers.operator
      offers.anchored offers.recognized offers.checked applied

/-- Dropping a transpose that moves no axis. -/
theorem drop (strand : g.Strand source sink rank turns)
    (offers : pass.Offers g .foldIdentityTranspose region id op)
    (applied : Rule.foldIdentityTranspose.apply region ⟨g, journal⟩ = .ok () after) :
    ∃ shorter, Axes.Shortened rank turns shorter ∧
      after.graph.swept.Strand source sink rank shorter := by
  rcases strand.exists_installed Rule.careful_foldIdentityTranspose offers applied with
    ⟨replaceable, sustains, sources, replacements, built, installed⟩
  have recognized := offers.recognized
  simp only [Rule.foldIdentityTranspose] at recognized
  split at recognized
  · next axes operator =>
    split at recognized
    · next identity =>
      rcases strand.exists_split operator with
        ⟨later, earlier, top, operand, rfl, readsTop, front, reads, back⟩
      have permutes := strand.permutes
      simp only [List.forall_mem_append, List.forall_mem_cons] at permutes
      rcases permutes with ⟨permutesLater, permutesHere, permutesEarlier⟩
      rcases Region.exists_oneNode strand.valid replaceable operator recognized
        installed.captured with ⟨types, result, shape⟩
      have passedOn : replacements = [operand] := by
        have builds := installed.builds
        simp only [Rule.foldIdentityTranspose, Stateful.bind_eq_ok, Stateful.lift_eq_ok,
          Stateful.pure_eq_ok, Match.source, entryAt_eq_ok, shape.reads 0 operand reads] at builds
        rcases builds with ⟨_, _, ⟨same, -⟩, rfl, -⟩
        rw [Option.some.inj same]
      subst passedOn
      have stays : ∀ place < rank, place = axes.getD place 0 := by
        intro place inside
        rw [beq_iff_eq.mp identity, Axes.length_of_permutes permutesHere]
        simp [inside]
      refine ⟨later ++ [] ++ earlier, ?_, ?_⟩
      · rw [List.append_cons]
        exact .intro rfl stays
      · apply strand.splice readsTop front (.turn operator reads .stop) back
          (installed.spliced shape.outputs) sustains .stop
        rw [List.append_nil]
        exact List.forall_mem_append.mpr ⟨permutesLater, permutesEarlier⟩
    · cases recognized
  · cases recognized

/-- Joining two transposes. -/
theorem join (strand : g.Strand source sink rank turns)
    (offers : pass.Offers g .foldTwoTransposes region id op)
    (applied : Rule.foldTwoTransposes.apply region ⟨g, journal⟩ = .ok () after) :
    ∃ shorter, Axes.Shortened rank turns shorter ∧
      after.graph.swept.Strand source sink rank shorter := by
  rcases strand.exists_installed Rule.careful_foldTwoTransposes offers applied with
    ⟨replaceable, sustains, sources, replacements, built, installed⟩
  rcases Operator.describes_of_opcode (List.mem_singleton.mp offers.anchored) with ⟨second, rfl⟩
  have operator := offers.operator
  have recognized := offers.recognized
  simp only [Rule.foldTwoTransposes] at recognized
  split at recognized
  · next outlet first produced =>
    split at recognized
    · rcases strand.exists_split operator with
        ⟨later, passed, top, operand, rfl, readsTop, front, reads, back⟩
      rcases producerOf_eq_some.mp produced with ⟨readsAgain, firstOperator⟩
      rcases reads_unique reads readsAgain with rfl
      rcases Region.exists_twoNodes strand.valid replaceable operator rfl produced recognized
        installed.captured with ⟨types, middle, result, shape⟩
      cases back with
      | stop => cases firstOperator.symm.trans strand.entry
      | @turn producer axes below _ earlier operatorAgain readsBelow rest =>
          rcases Operator.transpose.inj (Option.some.inj
            (firstOperator.symm.trans operatorAgain)) with rfl
          have permutes := strand.permutes
          simp only [List.forall_mem_append, List.forall_mem_cons] at permutes
          rcases permutes with ⟨permutesLater, permutesSecond, permutesFirst, permutesEarlier⟩
          have inside : ∀ axis ∈ second, axis < first.length := by
            intro axis member
            rw [Axes.length_of_permutes permutesFirst]
            exact List.mem_range.mp (permutesSecond.mem_iff.mp member)
          rcases Rule.appended_of_foldTwoTransposes strand.intact recognized firstOperator operator
            inside (shape.reads 0 below readsBelow) installed.builds with
            ⟨rfl, name, type, appended⟩
          have patch : after.graph.Turns ⟨g.slots.size, 0⟩
              [(g.slots.size, permuteDims second first)] below := by
            have notOld : below ≠ ⟨id, 0⟩ := by
              rintro rfl
              exact strand.intact.acyclic.not_depends_of_reads readsBelow (.single reads.needs)
            rcases appended.exists_new with ⟨added, found, -, inputs⟩
            have readsNew : built.Reads ⟨g.slots.size, 0⟩ below :=
              reads_iff.mpr ⟨added, found, by rw [inputs]; rfl⟩
            have moved := installed.reads shape.outputs readsNew
            rw [Rule.redirected_of_ne notOld] at moved
            refine .turn ?_ moved .stop
            rw [installed.rewired.toRelinked.inventory.operators, appended.op?_new]
            rfl
          have composed : ∀ place < rank,
              (permuteDims second first).getD place 0 = first.getD (second.getD place 0) 0 := by
            intro place placed
            apply Axes.getD_permuteDims
            rwa [Axes.length_of_permutes permutesSecond]
          refine ⟨later ++ [(g.slots.size, permuteDims second first)] ++ earlier, ?_, ?_⟩
          · rw [List.append_cons, List.append_cons, List.append_assoc later]
            exact .intro rfl composed
          · apply strand.splice readsTop front
              (.turn operator reads (.turn firstOperator readsBelow .stop)) rest
              (installed.spliced shape.outputs) sustains patch
            simp only [List.forall_mem_append, List.forall_mem_singleton]
            exact ⟨⟨permutesLater, Axes.permutes_permuteDims permutesFirst permutesSecond⟩,
              permutesEarlier⟩
    · cases recognized
  · cases recognized

/-- One application shortens a strand by one transpose. -/
theorem shorten {h : Graph} (strand : g.Strand source sink rank turns)
    (rules : ∀ rule ∈ pass.rules, rule = .foldTwoTransposes ∨ rule = .foldIdentityTranspose)
    (rewrites : pass.Rewrites g h) :
    ∃ shorter, Axes.Shortened rank turns shorter ∧ h.Strand source sink rank shorter := by
  cases rewrites with
  | intro offers applied =>
      rcases rules _ offers.member with rfl | rfl
      · exact strand.join offers applied
      · exact strand.drop offers applied

/-- Where no rule applies any more, at most one transpose is left, and it moves some axis. -/
theorem settled (strand : g.Strand source sink rank turns)
    (joins : Rule.foldTwoTransposes.Exhausted g) (drops : Rule.foldIdentityTranspose.Exhausted g) :
    turns = [] ∨ ∃ id axes, turns = [(id, axes)] ∧ axes ≠ List.range rank := by
  rcases strand.way with ⟨top, -, way⟩
  cases way with
  | stop => exact Or.inl rfl
  | @turn id axes _ _ earlier operator reads rest =>
      cases rest with
      | stop =>
          have moves := drops.transpose strand.intact strand.valid.typed operator
          rw [Axes.length_of_permutes (strand.permutes _ List.mem_cons_self)] at moves
          exact Or.inr ⟨id, axes, rfl, moves⟩
      | turn producer _ _ =>
          have chained := strand.chained operator producer reads
          exact absurd chained (joins.transposes strand.intact strand.valid.typed _ _ _ _)

end Strand

/-! ## Building a chain -/

/-- One input, transposes in a row, and one declared output. -/
def transposeChain (inputName outputName : String) (type : TensorType) (chain : List (List Nat)) :
    Edit Nat := do
  let value ← input inputName type
  let turned ← chain.foldlM transpose value
  output outputName turned

/-- A chain in the making, which ends at an outlet. -/
structure Strung (g : Graph) (rank : Nat) (top : Outlet) (turns : List (Nat × List Nat)) :
    Prop where
  intact : g.Intact
  valid : g.Valid
  undeclared : g.outputs = []
  entry : g.op? 0 = some .input
  typed : ∃ type, g.outputType top = .ok type ∧ type.rank = rank
  way : g.Turns top turns ⟨0, 0⟩
  reached : ∀ id, g.contains id = true → g.Depends top.node id
  permutes : ∀ turn ∈ turns, turn.2.Perm (List.range rank)

section

variable {h : Graph} {node : Node} {top : Outlet} {name : String}

theorem Turns.append {bottom : Outlet} (way : g.Turns top turns bottom)
    (appended : g.Appended node h) : h.Turns top turns bottom := by
  have inside : ∀ turn ∈ turns, turn.1 < g.slots.size := fun turn member =>
    lt_size_of_contains (contains_of_op? (way.operator_of_mem turn member))
  apply way.redirect id
  · exact fun turn member => appended.op?_old (inside turn member)
  · intro turn member operand reads
    exact (appended.enlarges_nil.reads_old (inside turn member)).mpr reads
  · exact fun _ _ => rfl

theorem Strung.entry_append (strung : g.Strung rank top turns) (appended : g.Appended node h) :
    h.op? 0 = some .input := by
  rw [appended.op?_old (lt_size_of_contains (contains_of_op? strung.entry))]
  exact strung.entry

/-- A new node on the end of a chain depends on all of it. -/
theorem Strung.depends {op : Operator} {results : List TensorType}
    (strung : g.Strung rank top turns)
    (appended : g.Appended (connectedNode op name [top] results) h) :
    h.Reads ⟨g.slots.size, 0⟩ top ∧ ∀ id, h.contains id = true → h.Depends g.slots.size id := by
  rcases appended.exists_new with ⟨added, found, -, inputs⟩
  have reads : h.Reads ⟨g.slots.size, 0⟩ top := by
    refine reads_iff.mpr ⟨added, found, ?_⟩
    rw [inputs]
    rfl
  refine ⟨reads, fun id present => ?_⟩
  have member := mem_nodeIds.mpr present
  rw [appended.nodeIds, List.mem_append, List.mem_singleton] at member
  rcases member with old | rfl
  · rcases strung.typed with ⟨type, typed, -⟩
    rcases outputType_iff.mp typed with ⟨last, lastFound, -⟩
    have before := strung.reached id (mem_nodeIds.mp old)
    exact .head reads.needs ((appended.enlarges_nil.depends_old strung.intact.toFaithful
      (lt_size_of_node? lastFound)).mpr before)
  · exact .refl

theorem Strung.start (name : String) (type : TensorType) :
    ∃ h, input name type .empty = .ok ⟨0, 0⟩ h ∧ h.Strung type.rank ⟨0, 0⟩ [] := by
  have appended : Graph.empty.Appended (freshNode .input name [type])
      (Graph.empty.push (freshNode .input name [type])) :=
    .push intact_empty.toFaithful intact_empty.acyclic
  have done : input name type .empty =
      .ok ⟨0, 0⟩ (Graph.empty.push (freshNode .input name [type])) := rfl
  refine ⟨_, done, ?_⟩
  constructor
  · exact appended.intact intact_empty
  · exact valid_empty.of_input done
  · rfl
  · rfl
  · exact ⟨type, rfl, rfl⟩
  · exact .stop
  · intro id present
    have member := mem_nodeIds.mpr present
    rw [appended.nodeIds] at member
    rw [List.mem_singleton.mp member]
    exact .refl
  · exact List.forall_mem_nil _

theorem Strung.extend (strung : g.Strung rank top turns) {axes : List Nat}
    (permutes : axes.Perm (List.range rank)) :
    ∃ h, transpose top axes g = .ok ⟨g.slots.size, 0⟩ h ∧
      h.Strung rank ⟨g.slots.size, 0⟩ ((g.slots.size, axes) :: turns) := by
  rcases strung.typed with ⟨type, typed, ranked⟩
  have accepted : (Operator.transpose axes).HasTypes [type]
      [⟨type.dtype, permuteDims axes type.shape⟩] := by
    apply Operator.HasTypes.transpose
    rw [ranked]
    exact Axes.isPermutation_iff.mpr permutes
  rcases strung.valid.exists_applies (.cons typed .nil) accepted with ⟨name, h, applies, appended⟩
  rcases strung.depends appended with ⟨reads, reached⟩
  refine ⟨h, transpose_eq_ok.mpr applies, ?_⟩
  constructor
  · exact appended.intact strung.intact
  · exact strung.valid.of_applies applies
  · exact appended.outputs.trans strung.undeclared
  · exact strung.entry_append appended
  · rcases appended.exists_new_signature with ⟨added, found, same⟩
    refine ⟨_, outputType_iff.mpr ⟨added, found, by rw [same]; rfl⟩, ?_⟩
    rw [TensorType.rank, Axes.length_permuteDims, Axes.length_of_permutes permutes]
  · refine .turn ?_ reads (strung.way.append appended)
    rw [appended.op?_new]
    rfl
  · exact reached
  · exact List.forall_mem_cons.mpr ⟨permutes, strung.permutes⟩

theorem Strung.foldlM (strung : g.Strung rank top turns) {chain : List (List Nat)}
    (permutes : ∀ axes ∈ chain, axes.Perm (List.range rank)) :
    ∃ last made h, chain.foldlM transpose top g = .ok last h ∧ h.Strung rank last made ∧
      made.map Prod.snd = chain.reverse ++ turns.map Prod.snd := by
  induction chain generalizing g top turns with
  | nil => exact ⟨top, turns, g, rfl, strung, rfl⟩
  | cons axes rest inductionHypothesis =>
      rcases List.forall_mem_cons.mp permutes with ⟨here, others⟩
      rcases strung.extend here with ⟨k, done, extended⟩
      rcases inductionHypothesis extended others with ⟨last, made, h, rests, final, listed⟩
      refine ⟨last, made, h, ?_, final, ?_⟩
      · rw [List.foldlM_cons, Stateful.bind_of_ok done]
        exact rests
      · rw [listed, List.reverse_cons, List.append_assoc]
        rfl

theorem Strung.declare (strung : g.Strung rank top turns) (name : String) :
    ∃ h, output name top g = .ok g.slots.size h ∧ h.Strand 0 g.slots.size rank turns := by
  rcases strung.typed with ⟨type, typed, -⟩
  rcases exists_output strung.intact.reliable name typed with ⟨h, done, appended⟩
  rcases strung.depends appended with ⟨reads, reached⟩
  have intact := appended.intact strung.intact
  have declared : h.outputs = [g.slots.size] := by
    have outputs : h.outputs = g.outputs ++ [g.slots.size] := appended.outputs
    rw [outputs, strung.undeclared]
    rfl
  refine ⟨h, done, ?_⟩
  constructor
  · exact intact
  · exact strung.valid.of_output done
  · apply intact.swept_eq_self
    intro id present
    exact contains_reachable.mpr
      ⟨g.slots.size, declared ▸ List.mem_singleton_self _, reached id present⟩
  · exact declared
  · exact strung.entry_append appended
  · exact ⟨top, reads, strung.way.append appended⟩
  · exact strung.permutes

end

theorem exists_transposeChain {type : TensorType} {chain : List (List Nat)}
    (permutes : ∀ axes ∈ chain, axes.Perm (List.range type.rank))
    (inputName outputName : String) :
    ∃ sink g turns, transposeChain inputName outputName type chain .empty = .ok sink g ∧
      g.Strand 0 sink type.rank turns ∧ turns.map Prod.snd = chain.reverse := by
  rcases Strung.start inputName type with ⟨first, started, strung⟩
  rcases strung.foldlM permutes with ⟨last, turns, k, turned, string, listed⟩
  rcases string.declare outputName with ⟨g, declared, strand⟩
  refine ⟨_, g, turns, ?_, strand, listed.trans (List.append_nil _)⟩
  rw [transposeChain, Stateful.bind_of_ok started, Stateful.bind_of_ok turned]
  exact declared

/-! ## Whole runs -/

/-- What applications make of a chain of transposes: a strand that leads back to the axes which
the chain fetches, and after which everything else is kept up. -/
structure Folded (g : Graph) (chain : List (List Nat)) (sink rank : Nat) (h : Graph)
    (turns : List (Nat × List Nat)) : Prop extends Strand h 0 sink rank turns where
  sustains : g.Sustains h
  followed : ∀ position < rank, Axes.followed turns position = Axes.fetched chain position

variable {pass : Pass} {chain : List (List Nat)}

theorem Folded.exists_shorter {h k : Graph} (folded : Folded g chain sink rank h turns)
    (rules : ∀ rule ∈ pass.rules, rule = .foldTwoTransposes ∨ rule = .foldIdentityTranspose)
    (builtIn : pass.IsBuiltIn) (rewrites : pass.Rewrites h k) :
    ∃ shorter, shorter.length < turns.length ∧ Folded g chain sink rank k shorter := by
  rcases folded.toStrand.shorten rules rewrites with ⟨shorter, shortened, strand⟩
  refine ⟨shorter, ?_, strand, ?_, ?_⟩
  · rw [← shortened.length_eq]
    exact Nat.lt_succ_self _
  · exact folded.sustains.trans (rewrites.sustains builtIn folded.intact)
  · intro position inside
    rw [shortened.followed_eq folded.permutes inside]
    exact folded.followed position inside

/-- At most one transpose is left, by the composite of all of them. -/
theorem Folded.ends {h : Graph} (folded : Folded g chain sink rank h turns)
    (joins : Rule.foldTwoTransposes.Exhausted h) (drops : Rule.foldIdentityTranspose.Exhausted h) :
    ∃ now, h.Reads ⟨sink, 0⟩ now ∧
      if Axes.composite rank chain = List.range rank then now = ⟨0, 0⟩
      else ∃ id, now = ⟨id, 0⟩ ∧ h.op? id = some (.transpose (Axes.composite rank chain)) ∧
        h.Reads ⟨id, 0⟩ ⟨0, 0⟩ := by
  rcases folded.way with ⟨now, reads, way⟩
  refine ⟨now, reads, ?_⟩
  rcases folded.toStrand.settled joins drops with rfl | ⟨id, axes, rfl, moves⟩
  · have identity : Axes.composite rank chain = List.range rank := by
      apply Axes.composite_eq List.length_range
      intro position inside
      rw [← folded.followed position inside]
      simp [inside, Axes.followed]
    rw [if_pos identity]
    cases way with
    | stop => rfl
  · have permutes := folded.permutes (id, axes) List.mem_cons_self
    have composed : Axes.composite rank chain = axes :=
      Axes.composite_eq (Axes.length_of_permutes permutes) folded.followed
    rw [composed, if_neg moves]
    cases way with
    | turn operator readsSource rest =>
        cases rest with
        | stop => exact ⟨id, rfl, operator, readsSource⟩

end Graph

/-- Chains of transposes.  A pass with the two rules for transposes, in any order, is run on an
input of any type, any number of transposes in a row and a declared output.  If it may apply
as many rules as there are transposes, it ends.  Then the output reads the input itself if the
composite of all reorderings moves no axis, and else the one transpose of the input by that
composite.  The type that reaches the output is the same as before. -/
theorem Pass.run_transposeChain {pass : Pass} {type : TensorType} {chain : List (List Nat)}
    {limit : Nat}
    (rules : ∀ rule, rule ∈ pass.rules ↔
      rule = .foldTwoTransposes ∨ rule = .foldIdentityTranspose)
    (permutes : ∀ axes ∈ chain, axes.Perm (List.range type.rank)) (enough : chain.length ≤ limit)
    (inputName outputName : String) (journal : Journal) :
    ∃ sink g stats after,
      Graph.transposeChain inputName outputName type chain .empty = .ok sink g ∧
      pass.run limit ⟨g, journal⟩ = .ok stats after ∧
      ∃ before now result, g.Reads ⟨sink, 0⟩ before ∧ g.outputType before = .ok result ∧
        after.graph.Reads ⟨sink, 0⟩ now ∧ after.graph.outputType now = .ok result ∧
        after.graph.op? 0 = some .input ∧
        if Axes.composite type.rank chain = List.range type.rank then now = ⟨0, 0⟩
        else ∃ id, now = ⟨id, 0⟩ ∧
          after.graph.op? id = some (.transpose (Axes.composite type.rank chain)) ∧
          after.graph.Reads ⟨id, 0⟩ ⟨0, 0⟩ := by
  rcases Graph.exists_transposeChain permutes inputName outputName with
    ⟨sink, g, turns, built, strand, listed⟩
  have builtIn : pass.IsBuiltIn := by
    intro rule member
    rcases (rules rule).mp member with rfl | rfl
    · exact Or.inl (by simp [Rule.valueKeeping])
    · exact Or.inl (by simp [Rule.valueKeeping])
  have start : Graph.Folded g chain sink type.rank g turns :=
    ⟨strand, .refl strand.intact, fun _ _ => Axes.followed_eq_fetched listed⟩
  have length : turns.length = chain.length := by
    rw [← List.length_map, listed, List.length_reverse]
  obtain ⟨stats, after, done⟩ : ∃ stats after, pass.run limit ⟨g, journal⟩ = .ok stats after := by
    apply exists_runWithin_of_ranks
      (fun count h => ∃ turns, turns.length = count ∧ Graph.Folded g chain sink type.rank h turns)
      _ _ ⟨turns, length, start⟩ enough
    · rintro _ h rule region id op journal ⟨turns, rfl, folded⟩ offers
      have member := builtIn rule offers.member
      exact exists_applyAt_of_fitting offers member.careful member.fitting folded.intact
        folded.valid journal
    · rintro _ h k ⟨turns, rfl, folded⟩ rewrites
      rcases folded.exists_shorter (fun rule => (rules rule).mp) builtIn rewrites with
        ⟨shorter, less, next⟩
      exact ⟨shorter.length, less, shorter, rfl, next⟩
  rcases run_eq_ok done with ⟨last, trace, nothing, graph⟩
  obtain ⟨left, folded⟩ : ∃ left, Graph.Folded g chain sink type.rank last left := by
    apply trace.holds (fun h => ∃ left, Graph.Folded g chain sink type.rank h left) ⟨turns, start⟩
    rintro h k ⟨turns, folded⟩ rewrites
    rcases folded.exists_shorter (fun rule => (rules rule).mp) builtIn rewrites with
      ⟨shorter, -, next⟩
    exact ⟨shorter, next⟩
  rw [folded.swept] at graph
  have idle : pass.Idle last := by
    rw [← folded.swept, idle_swept_iff, folded.swept]
    exact nothing
  have exhausted : ∀ rule ∈ pass.rules, rule.Exhausted last := fun rule member =>
    Rule.exhausted_of_idle folded.intact folded.swept idle member
  rcases folded.ends (exhausted _ ((rules _).mpr (Or.inl rfl)))
    (exhausted _ ((rules _).mpr (Or.inr rfl))) with ⟨now, reads, shape⟩
  rcases Graph.Typed.exists_feeds strand.valid.typed strand.exit with ⟨result, before, reached⟩
  rcases folded.sustains.feeds sink (strand.declared ▸ List.mem_singleton_self sink) result
    ⟨before, reached⟩ with ⟨_, readsNow, typedNow⟩
  rcases Graph.reads_unique reads readsNow with rfl
  refine ⟨sink, g, stats, after, built, done, before, now, result, reached.1, reached.2, ?_⟩
  rw [graph]
  exact ⟨reads, typedNow, folded.entry, shape⟩

/-- Three turns of the axes of a cube end where they began.  After two of them, one turn the
other way is left. -/
theorem Pass.run_transposeChain_cube :
    let pass : Pass := ⟨"fold", [.foldIdentityTranspose, .foldTwoTransposes]⟩
    let cube : TensorType := ⟨.f32, [2, 2, 2]⟩
    let turn : List Nat := [1, 2, 0]
    (∃ sink g stats after,
      Graph.transposeChain "x" "y" cube [turn, turn, turn] .empty = .ok sink g ∧
      pass.run 3 ⟨g, #[]⟩ = .ok stats after ∧ after.graph.Reads ⟨sink, 0⟩ ⟨0, 0⟩) ∧
    ∃ sink g stats after id,
      Graph.transposeChain "x" "y" cube [turn, turn] .empty = .ok sink g ∧
      pass.run 2 ⟨g, #[]⟩ = .ok stats after ∧ after.graph.Reads ⟨sink, 0⟩ ⟨id, 0⟩ ∧
      after.graph.op? id = some (.transpose [2, 0, 1]) ∧ after.graph.Reads ⟨id, 0⟩ ⟨0, 0⟩ := by
  intro pass cube turn
  have rules : ∀ rule, rule ∈ pass.rules ↔
      rule = .foldTwoTransposes ∨ rule = .foldIdentityTranspose := by
    intro rule
    rw [List.mem_cons, List.mem_singleton, or_comm]
  have permutes : turn.Perm (List.range cube.rank) := by decide
  have thrice : ∀ axes ∈ [turn, turn, turn], axes.Perm (List.range cube.rank) := by
    simp [permutes]
  have twice : ∀ axes ∈ [turn, turn], axes.Perm (List.range cube.rank) := by
    simp [permutes]
  constructor
  · rcases run_transposeChain rules thrice (Nat.le_refl 3) "x" "y" #[] with
      ⟨sink, g, stats, after, built, done, _, now, _, -, -, reads, -, -, shape⟩
    rw [if_pos (by decide)] at shape
    exact ⟨sink, g, stats, after, built, done, shape ▸ reads⟩
  · rcases run_transposeChain rules twice (Nat.le_refl 2) "x" "y" #[] with
      ⟨sink, g, stats, after, built, done, _, now, _, -, -, reads, -, -, shape⟩
    rw [if_neg (by decide)] at shape
    rcases shape with ⟨id, rfl, left⟩
    exact ⟨sink, g, stats, after, id, built, done, reads, left⟩

end TensorCompiler
