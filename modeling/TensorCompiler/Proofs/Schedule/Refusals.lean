import TensorCompiler.Proofs.Construction.Builders
import TensorCompiler.Proofs.Schedule.Provision

namespace TensorCompiler
namespace Scheduling

open TensorCompiler.Graph

/-!
# How a scheduling run fails

A run could stop for many reasons.  A value may be read that has no buffer, a value may have
more readers than were counted, a buffer may go back twice, a counter may leave the words.  In
a graph with sound links none of this happens.  A run stops only at a value that is denied a
buffer, and it stops at the first one.

What is in use at that moment can be told from the graph and the lifetimes: the buffers of the
step itself, those that are pinned, and those that this node or a later one reads.
-/

/-! ## Nodes at which a run stops -/

/-- A buffer keeps its block throughout a step: it is made in this step, or it is pinned, or one
of the nodes that are left to run reads it. -/
def InUse (g : Graph) (step : Nat) (remaining : List Nat) (outlet : Outlet) (buffer : Buffer) :
    Prop :=
  buffer.first = step ∨ buffer.pinned = true ∨
    ∃ inlet : Inlet, inlet.node ∈ remaining ∧ g.Reads inlet outlet

/-- A node comes to a halt: one of its results is denied a buffer when the results before it
have got theirs. -/
inductive HaltsAt (g : Graph) (allocators : Allocators) (scheduled : List Nat) (final : Nat)
    (inUse : Outlet → Buffer → Prop) (step id : Nat) (progress : Progress) : Error → Prop
  | intro {node : Node} {before after : List Outlet} {outlet : Outlet} {reserved : Progress}
      {error : Error} (found : g.node? id = some node)
      (results : outletsOf id node = before ++ outlet :: after)
      (placed : before.forM (reserve g scheduled step final) progress = .ok () reserved)
      (denied : Denied g allocators inUse reserved.buffers outlet error) :
      HaltsAt g allocators scheduled final inUse step id progress error

section

variable {g : Graph} {allocators : Allocators} {progress after : Progress}
  {held queue : List Outlet} {step final id : Nat} {scheduled sequence ids later : List Nat}
  {node : Node} {failure : Failure}

/-- Everything is ready for a node to run in some step: its results have not been made, and what
it reads has been. -/
structure Ready (g : Graph) (allocators : Allocators) (scheduled : List Nat)
    (progress : Progress) (step id : Nat) (node : Node) (queue : List Outlet) : Prop where
  found : g.node? id = some node
  earlier : ∀ outlet buffer, progress.buffers.get? outlet = some buffer → buffer.first < step
  absent : ∀ outlet : Outlet, outlet.node = id → progress.buffers.get? outlet = none
  expected : ∀ outlet ∈ outletsOf id node,
    ∃ node wire, Expected g allocators scheduled queue outlet node wire
  operands : ∀ outlet ∈ g.operands id, outlet.node ≠ id ∧
    ∃ count, progress.pending.get? outlet = some count

/-- What a node reads from a node that has run has its readers counted. -/
theorem Records.exists_pending {outlet : Outlet}
    (records : Records g scheduled final sequence progress) (linked : g.Linked)
    (earlier : outlet.node ∈ sequence) (reads : outlet ∈ g.operands id) :
    ∃ count, progress.pending.get? outlet = some count := by
  rcases mem_operands.mp reads with ⟨index, linkRead⟩
  rcases linked.exists_wire linkRead with ⟨wire, wired, -⟩
  have stored := (records.keys outlet).mpr ⟨earlier, wire, wired⟩
  exact Option.isSome_iff_exists.mp ((records.counted outlet).mpr stored)

/-- Every value that a list of nodes makes has a size in the memory that it goes to. -/
def Sized (g : Graph) (allocators : Allocators) (scheduled : List Nat) : Prop :=
  ∀ outlet wire allocator, outlet.node ∈ scheduled → g.wire outlet = .ok wire →
    allocators.get wire.memory = some allocator → ∃ size, allocator.sizeOf wire.type = .ok size

/-- A node of a schedule is ready when those before it have run. -/
theorem Records.ready (records : Records g scheduled final sequence progress) (linked : g.Linked)
    (arranged : g.Arranged scheduled) (sized : Sized g allocators scheduled)
    (whole : scheduled = sequence ++ id :: later) :
    ∃ node, Ready g allocators scheduled progress sequence.length id node
      ((id :: later).flatMap g.operands) := by
  have member : id ∈ scheduled := by simp [whole]
  rcases contains_iff.mp (arranged.present id member) with ⟨node, found⟩
  have fresh : id ∉ sequence := arranged.not_mem_left whole
  refine ⟨node, found, ?_, fun outlet => records.absent fresh, ?_, ?_⟩
  · intro outlet buffer stored
    exact (List.getElem?_eq_some_iff.mp (records.entry outlet buffer stored).first).1
  · intro outlet own
    rcases (mem_outletsOf found).mp own with ⟨rfl, wire, wired⟩
    exact ⟨node, wire, found, wired, fun origin => sized outlet wire origin member wired,
      arranged.length_scheduledReaders whole linked rfl wired⟩
  · intro outlet reads
    have earlier := arranged.ordered _ _ _ whole _ (needs_of_mem_operands reads)
    exact ⟨fun own => fresh (own ▸ earlier), records.exists_pending linked earlier reads⟩

/-! ## One node -/

/-- A node whose results have got their buffers runs to its end. -/
theorem Furnished.runNode {reserved : Progress}
    (furnished : Furnished allocators progress held [] (g.operands id ++ queue))
    (ready : Ready g allocators scheduled progress step id node (g.operands id ++ queue))
    (reserving : (outletsOf id node).forM (Scheduling.reserve g scheduled step final) progress =
      .ok () reserved) :
    ∃ after nowHeld, Scheduling.runNode g scheduled final step id progress = .ok () after ∧
      Furnished allocators after nowHeld [] queue := by
  have distinct := outletsOf_nodup id node
  have ownNode : ∀ outlet ∈ outletsOf id node, outlet.node = id :=
    fun outlet member => ((mem_outletsOf ready.found).mp member).1
  rcases furnished.reserveAll distinct
    (fun outlet member => ready.absent outlet (ownNode outlet member)) ready.expected reserving
    with ⟨reservedHeld, afterReserving⟩
  rcases forM_reserve_eq_ok distinct reserving with ⟨others, own⟩
  have foreign : ∀ outlet ∈ g.operands id, outlet ∉ outletsOf id node :=
    fun outlet member inOutlets => (ready.operands outlet member).1 (ownNode outlet inOutlets)
  rw [List.append_nil] at afterReserving
  obtain ⟨read, readHeld, reading, afterReading⟩ : ∃ read readHeld,
      (g.operands id).forM (Scheduling.finishRead step) reserved = .ok () read ∧
      Furnished allocators read readHeld (outletsOf id node).reverse queue := by
    apply afterReserving.finishReads
    · intro outlet member
      rw [(others outlet (foreign outlet member)).2]
      exact (ready.operands outlet member).2
    · intro outlet member inOutlets
      exact foreign outlet member (List.mem_reverse.mp inOutlets)
  have readForward : Furnished allocators read readHeld (outletsOf id node) queue :=
    afterReading.regroup fun outlet buffer _ => by simp only [Needed, List.mem_reverse]
  have known : ∀ outlet ∈ outletsOf id node, ∃ count, read.pending.get? outlet = some count := by
    intro outlet member
    rcases own outlet member with ⟨_, _, -, -, pending⟩
    rw [(forM_finishRead_eq_ok reading).2.1 outlet] at pending
    rcases Option.map_eq_some_iff.mp pending with ⟨count, entry, -⟩
    exact ⟨count, entry⟩
  rcases readForward.reclaimAllUnread distinct known with
    ⟨after, nowHeld, reclaiming, afterReclaiming⟩
  rw [operands_of_node? ready.found] at reading
  refine ⟨after, nowHeld, ?_, afterReclaiming⟩
  simp only [Scheduling.runNode, Stateful.bind_eq_ok, Stateful.lift_eq_ok]
  exact ⟨node, progress, ⟨node_eq_ok.mpr ready.found, rfl⟩, (), reserved, reserving, (), read,
    reading, reclaiming⟩

theorem Furnished.runNode_of_ok
    (furnished : Furnished allocators progress held [] (g.operands id ++ queue))
    (ready : Ready g allocators scheduled progress step id node (g.operands id ++ queue))
    (done : Scheduling.runNode g scheduled final step id progress = .ok () after) :
    ∃ nowHeld, Furnished allocators after nowHeld [] queue := by
  rcases runNode_eq_ok done with ⟨same, reserved, _, found, reserving, -, -⟩
  rcases Option.some.inj (ready.found.symm.trans found) with rfl
  rcases furnished.runNode ready reserving with ⟨other, nowHeld, again, nowFurnished⟩
  rcases EStateM.Result.ok.inj (done.symm.trans again) with ⟨-, rfl⟩
  exact ⟨nowHeld, nowFurnished⟩

/-- A node can fail only while it asks for buffers. -/
theorem Furnished.failure?_runNode
    (furnished : Furnished allocators progress held [] (g.operands id ++ queue))
    (ready : Ready g allocators scheduled progress step id node (g.operands id ++ queue)) :
    Stateful.failure? (Scheduling.runNode g scheduled final step id) progress = some failure ↔
      Stateful.failure? ((outletsOf id node).forM (Scheduling.reserve g scheduled step final))
        progress = some failure := by
  let reserveAll := (outletsOf id node).forM (Scheduling.reserve g scheduled step final)
  change _ ↔ Stateful.failure? reserveAll progress = some failure
  cases reserving : reserveAll progress with
  | ok value reserved =>
      rcases furnished.runNode ready reserving with ⟨after, _, done, -⟩
      rw [Stateful.failure?_eq_none.mpr ⟨_, _, done⟩,
        Stateful.failure?_eq_none.mpr ⟨_, _, reserving⟩]
  | error cause reserved =>
      have stopped : Scheduling.runNode g scheduled final step id progress =
          .error cause reserved := by
        unfold Scheduling.runNode
        rw [Stateful.bind_of_lift (node_eq_ok.mpr ready.found)]
        exact Stateful.bind_eq_error.mpr (Or.inl reserving)
      rw [Stateful.failure?_of_error stopped, Stateful.failure?_of_error reserving]

/-- What is still needed while a node asks for buffers, told from the graph. -/
theorem needed_iff_inUse {before : List Outlet} {outlet : Outlet} {buffer : Buffer}
    (earlier : ∀ outlet buffer, progress.buffers.get? outlet = some buffer → buffer.first < step)
    (distinct : before.Nodup)
    (placed : before.forM (reserve g scheduled step final) progress = .ok () after)
    (stored : after.buffers.get? outlet = some buffer) :
    Needed before.reverse (ids.flatMap g.operands) outlet buffer ↔
      InUse g step ids outlet buffer := by
  rcases forM_reserve_eq_ok distinct placed with ⟨old, new⟩
  have isNew : outlet ∈ before ↔ buffer.first = step := by
    constructor
    · intro member
      rcases new outlet member with ⟨wire, block, -, added, -⟩
      rcases Option.some.inj (added.symm.trans stored) with rfl
      rfl
    · intro same
      by_contra outside
      rw [(old outlet outside).1] at stored
      exact absurd same (Nat.ne_of_lt (earlier outlet buffer stored))
  rw [Needed, InUse, mem_flatMap_operands, List.mem_reverse, isNew]
  exact or_assoc.symm.trans or_comm

/-- When some results of a node have got their buffers, the next one is denied a buffer or gets
one. -/
theorem Furnished.failure?_reserve_of_placed {before rest : List Outlet} {outlet : Outlet}
    {reserved : Progress}
    (furnished : Furnished allocators progress held [] ((id :: later).flatMap g.operands))
    (ready : Ready g allocators scheduled progress step id node
      ((id :: later).flatMap g.operands))
    (results : outletsOf id node = before ++ outlet :: rest)
    (placed : before.forM (Scheduling.reserve g scheduled step final) progress =
      .ok () reserved) :
    Stateful.failure? (Scheduling.reserve g scheduled step final outlet) reserved = some failure ↔
      ∃ error, failure = .refused error ∧
        Denied g allocators (InUse g step (id :: later)) reserved.buffers outlet error := by
  have distinct := outletsOf_nodup id node
  rw [results] at distinct
  rcases List.nodup_append.mp distinct with ⟨firstDistinct, -, -⟩
  have fresh : ∀ other ∈ outletsOf id node, progress.buffers.get? other = none :=
    fun other own => ready.absent other ((mem_outletsOf ready.found).mp own).1
  have first : ∀ other ∈ before, other ∈ outletsOf id node := by
    intro other member
    rw [results]
    exact List.mem_append_left _ member
  have member : outlet ∈ outletsOf id node := by simp [results]
  rcases furnished.reserveAll firstDistinct (fun other earlier => fresh other (first other earlier))
    (fun other earlier => ready.expected other (first other earlier)) placed with
    ⟨reservedHeld, nowFurnished⟩
  rw [List.append_nil] at nowFurnished
  have absent : reserved.buffers.get? outlet = none := by
    have outside : outlet ∉ before := fun earlier =>
      List.disjoint_of_nodup_append distinct earlier List.mem_cons_self
    rw [((forM_reserve_eq_ok firstDistinct placed).1 outlet outside).1]
    exact fresh outlet member
  have same : ∀ other buffer, reserved.buffers.get? other = some buffer →
      (Needed before.reverse ((id :: later).flatMap g.operands) other buffer ↔
        InUse g step (id :: later) other buffer) :=
    fun other buffer => needed_iff_inUse ready.earlier firstDistinct placed
  rcases ready.expected outlet member with ⟨_, wire, expected⟩
  rw [nowFurnished.failure?_reserve expected absent]
  refine exists_congr fun error => and_congr_right fun _ => ?_
  exact ⟨fun denied => denied.mono fun other buffer stored => (same other buffer stored).mp,
    fun denied => denied.mono fun other buffer stored => (same other buffer stored).mpr⟩

/-- A node fails exactly if it comes to a halt. -/
theorem Furnished.failure?_runNode_iff_haltsAt
    (furnished : Furnished allocators progress held [] ((id :: later).flatMap g.operands))
    (ready : Ready g allocators scheduled progress step id node
      ((id :: later).flatMap g.operands)) :
    Stateful.failure? (Scheduling.runNode g scheduled final step id) progress = some failure ↔
      ∃ error, failure = .refused error ∧
        HaltsAt g allocators scheduled final (InUse g step (id :: later)) step id progress
          error := by
  rw [furnished.failure?_runNode ready, Stateful.failure?_forM]
  constructor
  · rintro ⟨before, outlet, rest, reserved, results, placed, fails⟩
    rcases (furnished.failure?_reserve_of_placed ready results placed).mp fails with
      ⟨error, rfl, denied⟩
    exact ⟨error, rfl, .intro ready.found results placed denied⟩
  · rintro ⟨error, rfl, halts⟩
    rcases halts with ⟨found, results, placed, denied⟩
    rcases Option.some.inj (ready.found.symm.trans found) with rfl
    exact ⟨_, _, _, _, results, placed,
      (furnished.failure?_reserve_of_placed ready results placed).mpr ⟨error, rfl, denied⟩⟩

/-! ## Runs -/

/-- A run fails at the first node that fails. -/
theorem failure?_runNodes :
    Stateful.failure? (runNodes g scheduled final step ids) progress = some failure ↔
      ∃ earlier id later between, ids = earlier ++ id :: later ∧
        runNodes g scheduled final step earlier progress = .ok () between ∧
        Stateful.failure? (runNode g scheduled final (step + earlier.length) id) between =
          some failure := by
  induction ids generalizing step progress with
  | nil => simp [runNodes, Stateful.failure?, pure, EStateM.pure]
  | cons head rest inductionHypothesis =>
      rw [runNodes, Stateful.failure?_bind]
      constructor
      · rintro (fails | ⟨_, between, first, fails⟩)
        · exact ⟨[], head, rest, progress, rfl, rfl, fails⟩
        · rcases inductionHypothesis.mp fails with ⟨earlier, id, later, last, rfl, others, there⟩
          refine ⟨head :: earlier, id, later, last, rfl, ?_, ?_⟩
          · rw [runNodes, Stateful.bind_of_ok first]
            exact others
          · rw [List.length_cons, Nat.add_comm earlier.length, ← Nat.add_assoc]
            exact there
      · rintro ⟨earlier, id, later, last, split, others, there⟩
        cases earlier with
        | nil =>
            rcases List.cons.inj split with ⟨rfl, rfl⟩
            rcases Stateful.pure_eq_ok.mp others with ⟨-, rfl⟩
            exact Or.inl there
        | cons first before =>
            rcases List.cons.inj split with ⟨rfl, rfl⟩
            rcases Stateful.bind_eq_ok.mp others with ⟨_, between, here, run⟩
            refine Or.inr ⟨(), between, here, inductionHypothesis.mpr
              ⟨before, id, later, last, rfl, run, ?_⟩⟩
            rw [List.length_cons, Nat.add_comm before.length, ← Nat.add_assoc] at there
            exact there

/-- The books stay in order as long as a run goes on. -/
theorem Furnished.run
    (furnished : Furnished allocators progress held [] ((ids ++ later).flatMap g.operands))
    (records : Records g scheduled final sequence progress) (linked : g.Linked)
    (arranged : g.Arranged scheduled) (sized : Sized g allocators scheduled)
    (whole : scheduled = sequence ++ (ids ++ later))
    (done : runNodes g scheduled final sequence.length ids progress = .ok () after) :
    ∃ nowHeld, Furnished allocators after nowHeld [] (later.flatMap g.operands) := by
  induction ids generalizing progress held sequence with
  | nil =>
      rcases Stateful.pure_eq_ok.mp done with ⟨-, rfl⟩
      exact ⟨held, furnished⟩
  | cons id rest inductionHypothesis =>
      rcases Stateful.bind_eq_ok.mp done with ⟨_, between, first, others⟩
      rcases records.ready linked arranged sized whole with ⟨node, ready⟩
      rcases furnished.runNode_of_ok ready first with ⟨nowHeld, nowFurnished⟩
      rcases runNode_tables first with ⟨same, found, tables⟩
      have fresh : id ∉ sequence := arranged.not_mem_left whole
      apply inductionHypothesis nowFurnished (records.node fresh found tables)
      · simp [whole]
      · rw [List.length_append, List.length_singleton]
        exact others

/-- When the first nodes of a schedule have run, the next one comes to a halt or does not fail. -/
theorem failure?_runNode_of_run {earlier : List Nat} {between : Progress} {journal : Journal}
    (linked : g.Linked) (arranged : g.Arranged scheduled)
    (reached : ∀ kind allocator, allocators.get kind = some allocator → allocator.Reached)
    (sized : Sized g allocators scheduled) (whole : scheduled = earlier ++ id :: later)
    (done : runNodes g scheduled final 0 earlier ⟨allocators, .empty, .empty, journal⟩ =
      .ok () between) :
    Stateful.failure? (runNode g scheduled final earlier.length id) between = some failure ↔
      ∃ error, failure = .refused error ∧
        HaltsAt g allocators scheduled final (InUse g earlier.length (id :: later))
          earlier.length id between error := by
  have start : Furnished allocators ⟨allocators, .empty, .empty, journal⟩ [] []
      ((earlier ++ id :: later).flatMap g.operands) := furnished_start reached
  have begun : Records g scheduled final [] ⟨allocators, .empty, .empty, journal⟩ :=
    records_empty allocators journal
  rcases start.run begun linked arranged sized (by rw [List.nil_append, whole]) done with
    ⟨nowHeld, furnished⟩
  have distinct : ([] ++ earlier).Nodup := by
    have all := arranged.distinct
    rw [whole] at all
    exact (List.nodup_append.mp all).1
  have records := begun.run distinct done
  rw [List.nil_append] at records
  rcases records.ready linked arranged sized whole with ⟨node, ready⟩
  exact furnished.failure?_runNode_iff_haltsAt ready

/-- A run through a whole schedule fails exactly if it comes to a halt at one of its nodes. -/
theorem failure?_run {journal : Journal} (linked : g.Linked) (arranged : g.Arranged scheduled)
    (reached : ∀ kind allocator, allocators.get kind = some allocator → allocator.Reached)
    (sized : Sized g allocators scheduled) :
    Stateful.failure? (runNodes g scheduled final 0 scheduled)
        ⟨allocators, .empty, .empty, journal⟩ = some failure ↔
      ∃ error, failure = .refused error ∧ ∃ earlier id later between,
        scheduled = earlier ++ id :: later ∧
        runNodes g scheduled final 0 earlier ⟨allocators, .empty, .empty, journal⟩ =
          .ok () between ∧
        HaltsAt g allocators scheduled final (InUse g earlier.length (id :: later)) earlier.length
          id between error := by
  rw [failure?_runNodes]
  constructor
  · rintro ⟨earlier, id, later, between, whole, done, fails⟩
    rw [Nat.zero_add] at fails
    rcases (failure?_runNode_of_run linked arranged reached sized whole done).mp fails with
      ⟨error, rfl, halts⟩
    exact ⟨error, rfl, earlier, id, later, between, whole, done, halts⟩
  · rintro ⟨error, rfl, earlier, id, later, between, whole, done, halts⟩
    refine ⟨earlier, id, later, between, whole, done, ?_⟩
    rw [Nat.zero_add]
    exact (failure?_runNode_of_run linked arranged reached sized whole done).mpr ⟨error, rfl, halts⟩

end

end Scheduling

namespace Graph

open Scheduling

variable {g : Graph} {allocators : Allocators}

/-- Scheduling fails where the run through the nodes does. -/
theorem failure?_schedule {journal : Journal} (declared : g.outputs ≠ [])
    (nonempty : g.postorder ≠ []) :
    Stateful.failure? (g.schedule allocators) journal =
      Stateful.failure? (runNodes g g.postorder (g.postorder.length - 1) 0 g.postorder)
        ⟨allocators, .empty, .empty, journal⟩ := by
  have last : Word.sub g.postorder.length 1 = .ok (g.postorder.length - 1) := by
    have positive := List.length_pos_of_ne_nil nonempty
    exact Word.sub_eq_ok.mpr (by omega)
  unfold Stateful.failure? Graph.schedule
  rw [if_neg (by simpa using declared)]
  simp only [last]
  cases runNodes g g.postorder (g.postorder.length - 1) 0 g.postorder
    ⟨allocators, .empty, .empty, journal⟩ with
  | ok value after => rfl
  | error cause after => rfl

/-- Scheduling comes to a halt: the nodes before some node run, and that node is denied a buffer
for one of its results.  Which buffers are in use depends on the step and the nodes that are left
to run. -/
inductive Halts (g : Graph) (allocators : Allocators) (journal : Journal)
    (inUse : (step : Nat) → (remaining : List Nat) → Outlet → Buffer → Prop) : Error → Prop
  | intro {earlier later : List Nat} {id : Nat} {progress : Progress} {error : Error}
      (order : g.postorder = earlier ++ id :: later)
      (ran : runNodes g g.postorder (g.postorder.length - 1) 0 earlier
        ⟨allocators, .empty, .empty, journal⟩ = .ok () progress)
      (halts : HaltsAt g allocators g.postorder (g.postorder.length - 1)
        (inUse earlier.length (id :: later)) earlier.length id progress error) :
      Halts g allocators journal inUse error

/-- A graph with outputs is refused exactly if scheduling comes to a halt. -/
theorem failure?_schedule_of_outputs {journal : Journal} {failure : Failure} (linked : g.Linked)
    (acyclic : g.Acyclic) (declared : ∀ id ∈ g.outputs, g.contains id = true)
    (reached : ∀ kind allocator, allocators.get kind = some allocator → allocator.Reached)
    (sized : Sized g allocators g.postorder) (hasOutputs : g.outputs ≠ []) :
    Stateful.failure? (g.schedule allocators) journal = some failure ↔
      ∃ error, failure = .refused error ∧ g.Halts allocators journal (InUse g) error := by
  have nonempty : g.postorder ≠ [] := by
    rcases List.exists_mem_of_ne_nil _ hasOutputs with ⟨root, member⟩
    exact List.ne_nil_of_mem (mem_postorder_of_output member (declared root member))
  rw [failure?_schedule hasOutputs nonempty,
    failure?_run linked (arranged_postorder linked.faithful acyclic) reached sized]
  refine exists_congr fun error => and_congr_right fun _ => ⟨?_, ?_⟩
  · rintro ⟨earlier, id, later, between, order, ran, halts⟩
    exact ⟨order, ran, halts⟩
  · rintro ⟨order, ran, halts⟩
    exact ⟨_, _, _, _, order, ran, halts⟩

/-- Scheduling refuses a graph without outputs.  A graph with outputs it refuses exactly if it
comes to a halt, and then for the reason that a buffer was denied for.  It never aborts, and no
node or outlet is missing. -/
theorem schedule_fails_iff_halts (linked : g.Linked) (acyclic : g.Acyclic)
    (declared : ∀ id ∈ g.outputs, g.contains id = true)
    (reached : ∀ kind allocator, allocators.get kind = some allocator → allocator.Reached)
    (sized : Sized g allocators g.postorder) (journal : Journal) :
    (∀ cause, Stateful.failure? (g.schedule allocators) journal ≠ some (.aborted cause)) ∧
    Stateful.failure? (g.schedule allocators) journal ≠ some (.refused .badNode) ∧
    (∀ index, Stateful.failure? (g.schedule allocators) journal ≠
      some (.refused (.badIndex index))) ∧
    (Stateful.failure? (g.schedule allocators) journal = some (.refused .emptyGraph) ↔
      g.outputs = []) ∧
    (g.outputs ≠ [] → ∀ error,
      Stateful.failure? (g.schedule allocators) journal = some (.refused error) ↔
        g.Halts allocators journal (InUse g) error) := by
  by_cases noOutputs : g.outputs = []
  · have refused : Stateful.failure? (g.schedule allocators) journal =
        some (.refused .emptyGraph) := by
      simp [Stateful.failure?, Graph.schedule, noOutputs]
    simp [refused, noOutputs]
  have fails : ∀ failure, Stateful.failure? (g.schedule allocators) journal = some failure ↔
      ∃ error, failure = .refused error ∧ g.Halts allocators journal (InUse g) error :=
    fun failure => failure?_schedule_of_outputs linked acyclic declared reached sized noOutputs
  have refuses : ∀ error, Stateful.failure? (g.schedule allocators) journal =
      some (.refused error) ↔ g.Halts allocators journal (InUse g) error := by
    intro error
    rw [fails]
    constructor
    · rintro ⟨_, same, halts⟩
      exact Failure.refused.inj same ▸ halts
    · intro halts
      exact ⟨error, rfl, halts⟩
  simp only [refuses, noOutputs, ne_eq, not_false_eq_true, forall_const, iff_false, implies_true,
    and_true]
  refine ⟨fun cause aborts => ?_, ?_, fun index => ?_, ?_⟩
  · rcases (fails _).mp aborts with ⟨_, impossible, -⟩
    cases impossible
  all_goals
    rintro ⟨-, -, ⟨-, -, -, denied⟩⟩
    cases denied

/-! ## Memories that stay full -/

/-- Eight bytes of one kind of memory, and as much as there is of the others. -/
def eightBytes (scarce : MemoryKind) : Allocators :=
  .tabulate fun kind => some (.new kind (if kind = scarce then some 8 else none) .dense)

theorem reached_eightBytes (scarce kind : MemoryKind) (allocator : Allocator)
    (present : (eightBytes scarce).get kind = some allocator) : allocator.Reached := by
  rw [eightBytes, PerKind.get_tabulate] at present
  rcases Option.some.inj present with rfl
  refine .new _ _ _ fun size bounded => ?_
  split at bounded
  · rcases Option.some.inj bounded with rfl
    decide
  · cases bounded

/-- All eight bytes are a gap if nothing is taken. -/
theorem hasGap_eightBytes {kind : MemoryKind} {allocator : Allocator} {taken : Block → Prop}
    (present : (eightBytes kind).get kind = some allocator) (nothing : ∀ block, ¬ taken block) :
    allocator.HasGap taken 8 := by
  rw [eightBytes, PerKind.get_tabulate, if_pos rfl] at present
  rcases Option.some.inj present with rfl
  refine ⟨0, ?_, fun block isTaken => absurd isTaken (nothing block)⟩
  rintro address ⟨-, inside⟩
  exact ⟨⟨0, 8⟩, List.mem_cons_self, Nat.zero_le _, inside⟩

/-- Two inputs are added, the second one of which is asked for when the first one has been
read. -/
def addLate : Edit Nat := do
  let first ← input "x" ⟨.f32, [2]⟩
  let positive ← unary .abs first
  let second ← input "y" ⟨.f32, [2]⟩
  let sum ← binary .add positive second
  output "sum" sum

/-- The graph that this makes of the empty one. -/
def lateSum : Graph :=
  Stateful.final addLate .empty

theorem made_lateSum : lateSum.Made := by
  have done : addLate .empty = .ok 4 lateSum := rfl
  simp only [addLate, Stateful.bind_eq_ok] at done
  rcases done with ⟨_, _, first, _, _, positive, _, _, second, _, _, sum, result⟩
  exact .output (.binary (.input (.unary (.input .empty first) positive) second) sum) result

theorem sized_lateSum : Sized lateSum (eightBytes .input) lateSum.postorder := by
  intro outlet wire allocator member wired present
  rw [eightBytes, PerKind.get_tabulate] at present
  rcases Option.some.inj present with rfl
  rcases wire_eq_ok.mp wired with ⟨node, found, entry⟩
  have types : ∀ id ∈ lateSum.postorder, ∀ wire ∈ (lateSum.node? id).elim [] Node.outputs,
      wire.type = ⟨.f32, [2]⟩ := by decide +kernel
  have type := types outlet.node member wire (by
    rw [found, Option.elim_some]
    exact List.mem_of_getElem? entry)
  rw [type]
  exact ⟨8, rfl⟩

/-- The second input is denied a buffer, since that of the first one is pinned. -/
theorem halts_lateSum :
    lateSum.outputs ≠ [] ∧
      Stateful.failure? (lateSum.schedule (eightBytes .input)) #[] =
        some (.refused (.outOfMemory .input "y" 8 8)) ∧
      lateSum.Halts (eightBytes .input) #[] (InUse lateSum) (.outOfMemory .input "y" 8 8) := by
  have valid := made_lateSum.valid
  have fails : Stateful.failure? (lateSum.schedule (eightBytes .input)) #[] =
      some (.refused (.outOfMemory .input "y" 8 8)) := by decide +kernel
  have declared : ∀ id ∈ lateSum.outputs, lateSum.contains id = true := by decide +kernel
  have hasOutputs : lateSum.outputs ≠ [] := by decide +kernel
  exact ⟨hasOutputs, fails, ((schedule_fails_iff_halts valid.linked valid.acyclic declared
    (reached_eightBytes .input) sized_lateSum #[]).2.2.2.2 hasOutputs _).mp fails⟩

/-- A buffer of an earlier step has a read to come. -/
def Awaited (g : Graph) (step : Nat) (remaining : List Nat) (outlet : Outlet) (buffer : Buffer) :
    Prop :=
  buffer.first < step ∧ ∃ inlet : Inlet, inlet.node ∈ remaining ∧ g.Reads inlet outlet

/-- When the second input is asked for, no input has a read to come. -/
theorem not_awaited_lateSum {progress : Progress} {outlet : Outlet} {buffer : Buffer}
    (ran : runNodes lateSum lateSum.postorder (lateSum.postorder.length - 1) 0 [0, 1]
      ⟨eightBytes .input, .empty, .empty, #[]⟩ = .ok () progress)
    (stored : progress.buffers.get? outlet = some buffer) (kind : buffer.kind = .input) :
    ¬ Awaited lateSum 2 [2, 3, 4] outlet buffer := by
  have idle : ∀ entry ∈ (Stateful.final
      (runNodes lateSum lateSum.postorder (lateSum.postorder.length - 1) 0 [0, 1])
      ⟨eightBytes .input, .empty, .empty, #[]⟩).buffers.entries,
      entry.2.kind = .input → entry.1 ∉ [2, 3, 4].flatMap lateSum.operands := by
    decide +kernel
  rw [Stateful.final, ran] at idle
  rintro ⟨-, reads⟩
  exact idle (outlet, buffer) (OutletMap.mem_entries.mpr stored) kind
    (mem_flatMap_operands.mpr reads)

/-- The buffers of earlier steps that have a read to come are not all that is in use: they would
leave room for the second input. -/
theorem not_halts_lateSum :
    Stateful.failure? (lateSum.schedule (eightBytes .input)) #[] =
        some (.refused (.outOfMemory .input "y" 8 8)) ∧
      ¬ lateSum.Halts (eightBytes .input) #[] (Awaited lateSum) (.outOfMemory .input "y" 8 8) := by
  refine ⟨by decide +kernel, ?_⟩
  generalize isError : Error.outOfMemory .input "y" 8 8 = error
  intro halts
  rcases halts with @⟨earlier, later, id, progress, _, order, ran, halts⟩
  rcases halts with @⟨node, before, after, outlet, reserved, _, found, results, placed, denied⟩
  have member : id ∈ lateSum.postorder := by simp [order]
  have own : outlet.node = id := ((mem_outletsOf found).mp (by simp [results])).1
  cases denied with
  | unserved => cases isError
  | @crowded wire owner allocator _ _ ownerFound served _ _ noGap =>
      rcases Error.outOfMemory.inj isError with ⟨kind, name, rfl, -⟩
      -- Only the second input bears that name.  Two nodes run before it, and it has one result.
      have named : ∀ id ∈ lateSum.postorder,
          (lateSum.node? id).map Node.name = some "y" → id = 2 := by decide +kernel
      rcases named id member (by rw [← own, ownerFound, name]; rfl) with rfl
      have nodes : lateSum.postorder = [0, 1] ++ 2 :: [3, 4] := by decide +kernel
      rcases (List.append_cons_inj_of_notMem (by decide) (by decide)).mp (nodes.symm.trans order)
        with ⟨rfl, -, rfl⟩
      have single : (lateSum.node? 2).map (outletsOf 2) = some [⟨2, 0⟩] := by decide +kernel
      rw [found, Option.map_some, results, Option.some.injEq] at single
      have isFirst : before = [] := by
        simp only [List.append_eq_singleton_iff, List.cons_ne_nil, and_false, or_false] at single
        exact single.1
      subst isFirst
      rcases Stateful.forM_nil_eq_ok.mp placed with rfl
      refine noGap (hasGap_eightBytes (kind ▸ served) ?_)
      rintro block ⟨other, buffer, stored, sameKind, -, awaited⟩
      exact not_awaited_lateSum ran stored (sameKind.trans kind.symm) awaited

end Graph
end TensorCompiler
