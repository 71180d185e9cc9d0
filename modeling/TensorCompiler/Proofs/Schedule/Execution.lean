import TensorCompiler.Proofs.Construction.Builders
import TensorCompiler.Proofs.Schedule.Packing
import TensorCompiler.Target

namespace TensorCompiler

/-!
# Executing a schedule

A schedule is run over memories that remember, for every byte, the outlet whose
value was written there last.  A node writes its stamp on every byte of its
buffers.  In a sound schedule nothing writes on a buffer between the step that
makes its value and the last step that needs it, so a node that reads an
operand finds that operand's stamp on every byte, before its own writes and
after them.
-/

open Scheduling

/-- The stamps on the bytes of each memory. -/
abbrev Stamps := MemoryKind → Nat → Option Outlet

namespace Stamps

/-- Put the stamp of an outlet on every byte of its buffer. -/
def write (stamps : Stamps) (outlet : Outlet) (buffer : Buffer) : Stamps :=
  fun kind address =>
    if kind = buffer.kind ∧ buffer.block.offset ≤ address ∧
        address < buffer.block.offset + buffer.block.size then some outlet
    else stamps kind address

/-- Every byte of a buffer carries the stamp of an outlet. -/
def Carry (stamps : Stamps) (outlet : Outlet) (buffer : Buffer) : Prop :=
  ∀ address, buffer.block.Covers address → stamps buffer.kind address = some outlet

end Stamps

namespace Schedule

/-- Write one value, if the schedule has a buffer for it. -/
def writeOutlet (schedule : Schedule) (stamps : Stamps) (outlet : Outlet) : Stamps :=
  match schedule.buffers.get? outlet with
  | some buffer => stamps.write outlet buffer
  | none => stamps

/-- Execute one node: it writes all its results. -/
def executeNode (g : Graph) (schedule : Schedule) (stamps : Stamps) (id : Nat) : Stamps :=
  match g.node? id with
  | some node => (outletsOf id node).foldl schedule.writeOutlet stamps
  | none => stamps

/-- The stamps after the given number of steps. -/
def stampsAfter (g : Graph) (schedule : Schedule) (start : Stamps) (steps : Nat) : Stamps :=
  (schedule.sequence.take steps).foldl (schedule.executeNode g) start

/-- The buffer of an outlet lies over a byte. -/
def Occupies (schedule : Schedule) (outlet : Outlet) (kind : MemoryKind) (address : Nat) : Prop :=
  ∃ buffer, schedule.buffers.get? outlet = some buffer ∧ buffer.kind = kind ∧
    buffer.block.Covers address

section

variable {g : Graph} {schedule : Schedule} {stamps start : Stamps} {outlet : Outlet}
  {kind : MemoryKind} {address : Nat}

/-! ## One node -/

theorem writeOutlet_of_occupies (occupies : schedule.Occupies outlet kind address) :
    schedule.writeOutlet stamps outlet kind address = some outlet := by
  rcases occupies with ⟨buffer, stored, rfl, covers⟩
  rw [writeOutlet, stored]
  exact if_pos ⟨rfl, covers⟩

theorem writeOutlet_of_not_occupies (free : ¬ schedule.Occupies outlet kind address) :
    schedule.writeOutlet stamps outlet kind address = stamps kind address := by
  rw [writeOutlet]
  cases stored : schedule.buffers.get? outlet with
  | none => rfl
  | some buffer =>
      apply if_neg
      rintro ⟨rfl, covers⟩
      exact free ⟨buffer, stored, rfl, covers⟩

/-- A stamp stays on a byte that no other outlet writes on. -/
theorem foldl_writeOutlet_of_stamped {outlets : List Outlet}
    (alone : ∀ other ∈ outlets, schedule.Occupies other kind address → other = outlet)
    (stamped : stamps kind address = some outlet) :
    outlets.foldl schedule.writeOutlet stamps kind address = some outlet := by
  induction outlets generalizing stamps with
  | nil => exact stamped
  | cons head rest inductionHypothesis =>
      refine inductionHypothesis (fun other member =>
        alone other (List.mem_cons_of_mem head member)) ?_
      by_cases occupies : schedule.Occupies head kind address
      · rw [writeOutlet_of_occupies occupies, alone head List.mem_cons_self occupies]
      · rw [writeOutlet_of_not_occupies occupies, stamped]

/-- An outlet leaves its stamp on its bytes, if no other one writes on them. -/
theorem foldl_writeOutlet_of_mem {outlets : List Outlet}
    (alone : ∀ other ∈ outlets, schedule.Occupies other kind address → other = outlet)
    (member : outlet ∈ outlets) (occupies : schedule.Occupies outlet kind address) :
    outlets.foldl schedule.writeOutlet stamps kind address = some outlet := by
  induction outlets generalizing stamps with
  | nil => exact absurd member List.not_mem_nil
  | cons head rest inductionHypothesis =>
      have restAlone : ∀ other ∈ rest, schedule.Occupies other kind address → other = outlet :=
        fun other inRest => alone other (List.mem_cons_of_mem head inRest)
      rcases List.mem_cons.mp member with rfl | inRest
      · rw [List.foldl_cons]
        exact foldl_writeOutlet_of_stamped restAlone (writeOutlet_of_occupies occupies)
      · exact inductionHypothesis restAlone inRest

theorem executeNode_of_stamped {id : Nat}
    (alone : ∀ other : Outlet, other.node = id → schedule.Occupies other kind address →
      other = outlet)
    (stamped : stamps kind address = some outlet) :
    schedule.executeNode g stamps id kind address = some outlet := by
  rw [executeNode]
  cases found : g.node? id with
  | none => exact stamped
  | some node =>
      refine foldl_writeOutlet_of_stamped ?_ stamped
      intro other member
      exact alone other ((mem_outletsOf found).mp member).1

theorem executeNode_of_own {wire : Wire}
    (alone : ∀ other : Outlet, other.node = outlet.node → schedule.Occupies other kind address →
      other = outlet)
    (wired : g.wire outlet = .ok wire) (occupies : schedule.Occupies outlet kind address) :
    schedule.executeNode g stamps outlet.node kind address = some outlet := by
  rcases Graph.wire_eq_ok.mp wired with ⟨node, found, _⟩
  rw [executeNode, found]
  refine foldl_writeOutlet_of_mem ?_ ((mem_outletsOf found).mpr ⟨rfl, wire, wired⟩) occupies
  intro other member
  exact alone other ((mem_outletsOf found).mp member).1

/-! ## Whole runs -/

theorem stampsAfter_succ {step id : Nat} (atStep : schedule.sequence[step]? = some id) :
    schedule.stampsAfter g start (step + 1) =
      schedule.executeNode g (schedule.stampsAfter g start step) id := by
  rw [stampsAfter, List.take_add_one, atStep, List.foldl_append]
  rfl

/-- A buffer keeps its stamp from the step that makes its value to the last one
that needs it: a node that runs in between has a buffer of its own. -/
theorem Sound.carry {buffer : Buffer} (sound : schedule.Sound g) (start : Stamps)
    (stored : schedule.buffers.get? outlet = some buffer) {steps : Nat}
    (made : buffer.first < steps) (needed : steps ≤ buffer.last + 1)
    (inside : steps ≤ schedule.sequence.length) :
    (schedule.stampsAfter g start steps).Carry outlet buffer := by
  have describes := sound.entry outlet buffer stored
  intro address covers
  have alone : ∀ step, buffer.first ≤ step → step ≤ buffer.last → ∀ other : Outlet,
      schedule.sequence[step]? = some other.node →
      schedule.Occupies other buffer.kind address → other = outlet := by
    rintro step begun ongoing other atStep ⟨otherBuffer, otherStored, sameKind, otherCovers⟩
    by_contra different
    have otherFirst : otherBuffer.first = step := by
      have otherAt := (sound.entry other otherBuffer otherStored).first
      have otherInside := (List.getElem?_eq_some_iff.mp otherAt).1
      exact (List.getElem?_inj otherInside sound.distinct).mp (otherAt.trans atStep.symm)
    refine sound.apart other outlet otherBuffer buffer different otherStored stored
      ⟨sameKind, ⟨otherFirst ▸ ongoing, ?_⟩, address, otherCovers, covers⟩
    exact Nat.le_trans begun (otherFirst ▸ sound.first_le_last otherStored)
  induction steps with
  | zero => exact absurd made (Nat.not_lt_zero _)
  | succ step inductionHypothesis =>
      obtain ⟨id, atStep⟩ : ∃ id, schedule.sequence[step]? = some id :=
        ⟨_, List.getElem?_eq_getElem inside⟩
      rw [stampsAfter_succ atStep]
      have ongoing := Nat.le_of_succ_le_succ needed
      rcases Nat.lt_or_eq_of_le (Nat.le_of_lt_succ made) with earlier | rfl
      · refine executeNode_of_stamped ?_
          (inductionHypothesis earlier (Nat.le_succ_of_le ongoing) (Nat.le_of_succ_le inside))
        rintro other rfl
        exact alone step (Nat.le_of_lt earlier) ongoing other atStep
      · rcases Option.some.inj (describes.first.symm.trans atStep) with rfl
        rcases describes.wire with ⟨wire, wired, _⟩
        refine executeNode_of_own ?_ wired ⟨buffer, stored, rfl, covers⟩
        intro other own
        exact alone buffer.first (Nat.le_refl _) ongoing other (own ▸ atStep)

theorem Sound.pinned_of_persistent {buffer : Buffer} (sound : schedule.Sound g)
    (stored : schedule.buffers.get? outlet = some buffer)
    (persistent : buffer.kind.isPersistent = true) : buffer.pinned = true := by
  rcases (sound.entry outlet buffer stored).wire with ⟨wire, _, sameKind, pinned⟩
  rw [pinned, isPinned, ← sameKind, persistent]
  rfl

/-- Nothing but its own node ever writes on a pinned buffer, so what was filled
in beforehand stays. -/
theorem Sound.carry_pinned {buffer : Buffer} (sound : schedule.Sound g)
    (stored : schedule.buffers.get? outlet = some buffer)
    (persistent : buffer.kind.isPersistent = true) (filled : start.Carry outlet buffer)
    (steps : Nat) : (schedule.stampsAfter g start steps).Carry outlet buffer := by
  intro address covers
  have alone : ∀ other, schedule.Occupies other buffer.kind address → other = outlet := by
    rintro other ⟨otherBuffer, otherStored, sameKind, otherCovers⟩
    by_contra different
    exact sound.pinned_apart different otherStored stored
      (sound.pinned_of_persistent otherStored (sameKind ▸ persistent))
      (sound.pinned_of_persistent stored persistent) sameKind ⟨address, otherCovers, covers⟩
  induction steps with
  | zero => exact filled address covers
  | succ step inductionHypothesis =>
      cases atStep : schedule.sequence[step]? with
      | none =>
          rw [stampsAfter, List.take_add_one, atStep, Option.toList_none, List.append_nil]
          exact inductionHypothesis
      | some id =>
          rw [stampsAfter_succ atStep]
          exact executeNode_of_stamped (fun other _ => alone other) inductionHypothesis

end

/-! ## Memory safety -/

/-- A schedule can be executed for a graph over any memories without corrupting
a value that is still needed. -/
structure MemorySafe (g : Graph) (schedule : Schedule) : Prop where
  /-- A node that reads an operand finds it intact, before it writes its own
  results and afterwards. -/
  reads : ∀ start step id node, schedule.sequence[step]? = some id → g.node? id = some node →
    ∀ outlet ∈ node.producers, ∃ buffer, schedule.buffers.get? outlet = some buffer ∧
      (schedule.stampsAfter g start step).Carry outlet buffer ∧
      (schedule.executeNode g (schedule.stampsAfter g start step) id).Carry outlet buffer
  /-- What a declared output reads is intact after the last step. -/
  outputs : ∀ start, ∀ id ∈ g.outputs, ∀ node, g.node? id = some node → node.op = .output →
    ∀ outlet ∈ node.producers, ∃ buffer, schedule.buffers.get? outlet = some buffer ∧
      (schedule.stampsAfter g start schedule.sequence.length).Carry outlet buffer
  /-- The buffers of a persistent kind have no byte in common. -/
  persistent : ∀ outlet other buffer otherBuffer, outlet ≠ other →
    schedule.buffers.get? outlet = some buffer →
    schedule.buffers.get? other = some otherBuffer → buffer.kind = otherBuffer.kind →
    buffer.kind.isPersistent = true → ¬ buffer.block.Meets otherBuffer.block
  /-- So they can be filled before the first step. -/
  filled : ∀ start outlet buffer, schedule.buffers.get? outlet = some buffer →
    buffer.kind.isPersistent = true → start.Carry outlet buffer →
    ∀ steps, (schedule.stampsAfter g start steps).Carry outlet buffer

/-- The schedules that packing makes of a given one, in any number of runs and whatever
shuffles there are. -/
inductive Packed (schedule : Schedule) : Schedule → Prop where
  | unchanged : Packed schedule schedule
  | again {before after : Schedule} {capacities : PerKind (Option Nat)} {budget : Nat}
      {shuffles : Shuffles} {journal later : Journal} {changed : Bool}
      (earlier : Packed schedule before)
      (done : before.pack capacities budget shuffles journal = .ok (changed, after) later) :
      Packed schedule after

section

variable {g : Graph} {schedule : Schedule}

theorem Sound.packed {result : Schedule} (sound : schedule.Sound g)
    (packing : schedule.Packed result) :
    result.Sound g ∧ Rearranges schedule result := by
  induction packing with
  | unchanged => exact ⟨sound, .refl schedule⟩
  | again _ done inductionHypothesis =>
      rcases inductionHypothesis with ⟨soundBefore, rearranges⟩
      rcases soundBefore.pack done with ⟨soundAfter, further⟩
      exact ⟨soundAfter, rearranges.trans further⟩

/-- A reader runs after the node that makes the value: in an acyclic graph no
node reads itself. -/
theorem Sound.made_before (sound : schedule.Sound g) (acyclic : g.Acyclic) {step : Nat}
    {outlet : Outlet} (read : ReadAt g schedule.sequence outlet step) :
    ∃ buffer, schedule.buffers.get? outlet = some buffer ∧ buffer.first < step := by
  rcases sound.served outlet step read with ⟨buffer, stored, bound⟩
  refine ⟨buffer, stored, Nat.lt_of_le_of_ne bound ?_⟩
  rintro rfl
  rcases read with ⟨inlet, atStep, reads⟩
  have same := Option.some.inj ((sound.entry outlet buffer stored).first.symm.trans atStep)
  exact acyclic _ (.single (same ▸ reads.needs))

theorem Sound.needed (sound : schedule.Sound g) {step : Nat} {outlet : Outlet} {buffer : Buffer}
    (read : ReadAt g schedule.sequence outlet step)
    (stored : schedule.buffers.get? outlet = some buffer) : step ≤ buffer.last := by
  have describes := sound.entry outlet buffer stored
  cases pinned : buffer.pinned with
  | true =>
      rw [describes.lastPinned pinned]
      exact Nat.le_sub_one_of_lt read.lt_length
  | false => exact (describes.lastUnpinned pinned).1 step read

/-- Sound schedules of linked, acyclic graphs are safe to execute, if they run
the declared outputs. -/
theorem Sound.memorySafe (sound : schedule.Sound g) (linked : g.Linked) (acyclic : g.Acyclic)
    (scheduled : ∀ id ∈ g.outputs, g.contains id = true → id ∈ schedule.sequence) :
    schedule.MemorySafe g := by
  refine ⟨?_, ?_, ?_, ?_⟩
  · intro start step id node atStep found outlet member
    rcases Graph.mem_producers.mp member with ⟨index, entry⟩
    have read : ReadAt g schedule.sequence outlet step :=
      ⟨⟨id, index⟩, atStep, Graph.reads_iff.mpr ⟨node, found, entry⟩⟩
    rcases sound.made_before acyclic read with ⟨buffer, stored, made⟩
    have needed := sound.needed read stored
    have inside := read.lt_length
    rw [← stampsAfter_succ atStep]
    exact ⟨buffer, stored,
      sound.carry start stored made (Nat.le_succ_of_le needed) (Nat.le_of_lt inside),
      sound.carry start stored (Nat.lt_succ_of_lt made) (Nat.succ_le_succ needed) inside⟩
  · intro start id declared node found isOutput outlet member
    have inSequence := scheduled id declared (Graph.contains_iff.mpr ⟨node, found⟩)
    rcases List.getElem?_of_mem inSequence with ⟨step, atStep⟩
    rcases Graph.mem_producers.mp member with ⟨index, entry⟩
    have reads : g.Reads ⟨id, index⟩ outlet := Graph.reads_iff.mpr ⟨node, found, entry⟩
    have read : ReadAt g schedule.sequence outlet step := ⟨⟨id, index⟩, atStep, reads⟩
    rcases sound.made_before acyclic read with ⟨buffer, stored, made⟩
    have describes := sound.entry outlet buffer stored
    have pinned : buffer.pinned = true := by
      rcases describes.wire with ⟨wire, wired, _, pinned⟩
      rw [pinned, isPinned_iff linked wired]
      refine Or.inr (Or.inr ⟨⟨id, index⟩, inSequence, ?_, reads⟩)
      rw [Graph.op?, found, Option.map_some, isOutput]
    have last := describes.lastPinned pinned
    refine ⟨buffer, stored, sound.carry start stored ?_ ?_ (Nat.le_refl _)⟩
    · exact Nat.lt_trans made read.lt_length
    · rw [last, final]
      omega
  · intro outlet other buffer otherBuffer different stored otherStored sameKind persistent
    exact sound.pinned_apart different stored otherStored
      (sound.pinned_of_persistent stored persistent)
      (sound.pinned_of_persistent otherStored (sameKind ▸ persistent)) sameKind
  · intro start outlet buffer stored persistent filled
    exact sound.carry_pinned stored persistent filled

end

/-- If the links of a graph agree and do not form a cycle, then any schedule of
it can be executed safely, as the scheduler made it and after any amount of
packing. -/
theorem memorySafe_of_schedule {g : Graph} {allocators : Allocators} {journal after : Journal}
    {schedule packed : Schedule} (linked : g.Linked) (acyclic : g.Acyclic)
    (reached : ∀ kind allocator, allocators.get kind = some allocator → allocator.Reached)
    (done : g.schedule allocators journal = .ok schedule after)
    (packing : schedule.Packed packed) : packed.MemorySafe g := by
  rcases (Graph.schedule_sound reached done).packed packing with ⟨sound, rearranges⟩
  apply sound.memorySafe linked acyclic
  intro id declared present
  rcases Graph.schedule_eq_ok done with ⟨_, sequence, _⟩
  rw [rearranges.sequence, sequence]
  exact Graph.mem_postorder_of_output declared present

/-- The allocators of a host have not been used. -/
theorem reached_cpu (kind : MemoryKind) (allocator : Allocator)
    (present : Target.cpu.allocators.get kind = some allocator) : allocator.Reached := by
  rw [Target.cpu, PerKind.get_tabulate] at present
  split at present
  · cases present
  · rcases Option.some.inj present with rfl
    exact .new kind none _ fun _ impossible => absurd impossible (by simp)

/-- The shuffle that turns an order round. -/
def Shuffle.backwards : Shuffle :=
  ⟨List.reverse, List.reverse_perm⟩

/-- The small graph on a host: the rectified image takes the bytes of the image
that was turned first, and the packed schedule is as safe as the first one, with the
order turned round twice among those tried. -/
theorem memorySafe_rectified :
    ∃ schedule journal changed packed later,
      Graph.rectified.schedule Target.cpu.allocators #[] = .ok schedule journal ∧
      schedule.pack Target.cpu.allocators.capacities 1
        (.tabulate fun _ => [.backwards, .backwards]) journal = .ok (changed, packed) later ∧
      packed.block? ⟨1, 0⟩ = packed.block? ⟨3, 0⟩ ∧ packed.MemorySafe Graph.rectified := by
  have blocks : (match Graph.rectified.schedule Target.cpu.allocators #[] with
      | .ok schedule journal =>
        match schedule.pack Target.cpu.allocators.capacities 1
            (.tabulate fun _ => [.backwards, .backwards]) journal with
        | .ok (_, packed) _ => some (packed.block? ⟨1, 0⟩, packed.block? ⟨3, 0⟩)
        | .error _ _ => none
      | .error _ _ => none) = some (some ⟨0, 24⟩, some ⟨0, 24⟩) := by decide +kernel
  have valid := Graph.made_rectified.valid
  cases done : Graph.rectified.schedule Target.cpu.allocators #[] with
  | error failure journal =>
      rw [done] at blocks
      cases blocks
  | ok schedule journal =>
      rw [done] at blocks
      cases repacked : schedule.pack Target.cpu.allocators.capacities 1
          (.tabulate fun _ => [.backwards, .backwards]) journal with
      | error failure later =>
          simp only [repacked] at blocks
          cases blocks
      | ok result later =>
          rcases result with ⟨changed, packed⟩
          simp only [repacked, Option.some.injEq, Prod.mk.injEq] at blocks
          refine ⟨schedule, journal, changed, packed, later, rfl, repacked,
            blocks.1.trans blocks.2.symm, ?_⟩
          exact memorySafe_of_schedule valid.linked valid.acyclic reached_cpu done
            (.again .unchanged repacked)

end Schedule
end TensorCompiler
