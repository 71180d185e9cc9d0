import Mathlib.Data.List.Nodup
import TensorCompiler.Proofs.Graph.DependencyOrder
import TensorCompiler.Proofs.Schedule.Buffers
import TensorCompiler.Schedule.Scheduling

namespace TensorCompiler
namespace Scheduling

/-!
# The steps of a scheduling run

What each activity of the scheduler does to the progress is said here once, for
the case that it succeeds.  Invariants of a run are derived from these facts
alone.  The second half puts the activities of one node together: which tables
change when a node runs, and how.
-/

/-! ## Single activities -/

/-- The buffer that a value gets when its node runs. -/
def newBuffer (g : Graph) (scheduled : List Nat) (step final : Nat) (outlet : Outlet)
    (wire : Wire) (block : Block) : Buffer where
  outlet := outlet
  kind := wire.memory
  block := block
  first := step
  last := if isPinned g scheduled wire then final else step
  pinned := isPinned g scheduled wire

theorem reserve_eq_ok {g : Graph} {scheduled : List Nat} {step final : Nat} {outlet : Outlet}
    {progress after : Progress}
    (done : reserve g scheduled step final outlet progress = .ok () after) :
    ∃ wire allocator block rest, g.wire outlet = .ok wire ∧
      progress.allocators.get wire.memory = some allocator ∧
      allocator.allocate wire.type = .ok (some (block, rest)) ∧
      after.allocators = progress.allocators.set wire.memory (some rest) ∧
      after.pending =
        progress.pending.insert outlet (scheduledReaders scheduled wire).length ∧
      after.buffers =
        progress.buffers.insert outlet (newBuffer g scheduled step final outlet wire block) := by
  simp only [reserve, Stateful.bind_eq_ok, Stateful.lift_eq_ok, Stateful.get_eq_ok] at done
  rcases done with ⟨wire, _, ⟨found, rfl⟩, node, _, ⟨_, rfl⟩, _, _, ⟨rfl, rfl⟩, done⟩
  cases present : progress.allocators.get wire.memory with
  | none =>
      rw [present] at done
      exact absurd done Stateful.refuse_ne_ok
  | some allocator =>
      simp only [present, Stateful.bind_eq_ok, Stateful.lift_eq_ok] at done
      rcases done with ⟨answer, _, ⟨allocated, rfl⟩, done⟩
      cases answer with
      | none =>
          simp only [Stateful.bind_eq_ok, Stateful.lift_eq_ok] at done
          rcases done with ⟨_, _, _, impossible⟩
          exact absurd impossible Stateful.refuse_ne_ok
      | some given =>
          rcases given with ⟨block, rest⟩
          rw [Stateful.set_eq_ok] at done
          subst done
          exact ⟨wire, allocator, block, rest, found, present, allocated, rfl, rfl, rfl⟩

/-- Reclaiming leaves the tables alone.  It returns the block of an unpinned
buffer, if there is an allocator for it. -/
theorem reclaim_eq_ok {outlet : Outlet} {progress after : Progress}
    (done : reclaim outlet progress = .ok () after) :
    ∃ buffer, progress.buffers.get? outlet = some buffer ∧
      after.pending = progress.pending ∧ after.buffers = progress.buffers ∧
      ((after.allocators = progress.allocators ∧
          (buffer.pinned = true ∨ progress.allocators.get buffer.kind = none)) ∨
        (buffer.pinned = false ∧ ∃ allocator rest,
          progress.allocators.get buffer.kind = some allocator ∧
          allocator.release buffer.block = .ok rest ∧
          after.allocators = progress.allocators.set buffer.kind (some rest))) := by
  simp only [reclaim, Stateful.bind_eq_ok, Stateful.get_eq_ok] at done
  rcases done with ⟨_, _, ⟨rfl, rfl⟩, done⟩
  cases found : progress.buffers.get? outlet with
  | none =>
      rw [found] at done
      exact absurd done Stateful.refuse_ne_ok
  | some buffer =>
      simp only [found] at done
      refine ⟨buffer, rfl, ?_⟩
      cases pinned : buffer.pinned with
      | true =>
          simp only [pinned, if_true, Stateful.pure_eq_ok] at done
          rcases done with ⟨_, rfl⟩
          exact ⟨rfl, rfl, Or.inl ⟨rfl, Or.inl rfl⟩⟩
      | false =>
          simp only [pinned, Bool.false_eq_true, if_false] at done
          cases present : progress.allocators.get buffer.kind with
          | none =>
              simp only [present, Stateful.pure_eq_ok] at done
              rcases done with ⟨_, rfl⟩
              exact ⟨rfl, rfl, Or.inl ⟨rfl, Or.inr rfl⟩⟩
          | some allocator =>
              simp only [present, Stateful.bind_eq_ok, Stateful.lift_eq_ok,
                Stateful.set_eq_ok] at done
              rcases done with ⟨rest, _, ⟨released, rfl⟩, rfl⟩
              exact ⟨rfl, rfl, Or.inr ⟨rfl, allocator, rest, rfl, released, rfl⟩⟩

/-- The tables after one reader of a value has run. -/
def afterRead (step : Nat) (outlet : Outlet) (remaining : Nat) (progress : Progress) : Progress :=
  { progress with
    pending := progress.pending.insert outlet remaining
    buffers := match progress.buffers.get? outlet with
      | some buffer => progress.buffers.insert outlet (extendTo step buffer)
      | none => progress.buffers }

/-- Reading counts one reader down, and the last one reclaims the buffer. -/
theorem finishRead_eq_ok {step : Nat} {outlet : Outlet} {progress after : Progress}
    (done : finishRead step outlet progress = .ok () after) :
    ∃ remaining, progress.pending.get? outlet = some (remaining + 1) ∧
      ((remaining = 0 ∧ reclaim outlet (afterRead step outlet remaining progress) = .ok () after) ∨
        (remaining ≠ 0 ∧ after = afterRead step outlet remaining progress)) := by
  simp only [finishRead, Stateful.bind_eq_ok, Stateful.get_eq_ok] at done
  rcases done with ⟨_, _, ⟨rfl, rfl⟩, done⟩
  cases found : progress.pending.get? outlet with
  | none =>
      rw [found] at done
      exact absurd done Stateful.refuse_ne_ok
  | some count =>
      simp only [found, Stateful.bind_eq_ok, Stateful.lift_eq_ok, Stateful.set_eq_ok] at done
      rcases done with ⟨remaining, _, ⟨subtracted, rfl⟩, _, middle, stored, done⟩
      rcases Word.sub_eq_ok.mp subtracted with rfl
      refine ⟨remaining, rfl, ?_⟩
      change afterRead step outlet remaining progress = middle at stored
      subst stored
      split at done
      · next last => exact Or.inl ⟨last, done⟩
      · next more =>
        rw [Stateful.pure_eq_ok] at done
        exact Or.inr ⟨more, done.2.symm⟩

theorem reclaimUnread_eq_ok {outlet : Outlet} {progress after : Progress}
    (done : reclaimUnread outlet progress = .ok () after) :
    (progress.pending.get? outlet = some 0 ∧ reclaim outlet progress = .ok () after) ∨
      after = progress := by
  simp only [reclaimUnread, Stateful.bind_eq_ok, Stateful.get_eq_ok] at done
  rcases done with ⟨_, _, ⟨rfl, rfl⟩, done⟩
  split at done
  · next unread => exact Or.inl ⟨unread, done⟩
  · rw [Stateful.pure_eq_ok] at done
    exact Or.inr done.2.symm

/-! ## The tables after the activities of one node -/

theorem mem_outletsOf {g : Graph} {id : Nat} {node : Node} {outlet : Outlet}
    (found : g.node? id = some node) :
    outlet ∈ outletsOf id node ↔ outlet.node = id ∧ ∃ wire, g.wire outlet = .ok wire := by
  rcases outlet with ⟨position, index⟩
  simp only [outletsOf, List.mem_map, List.mem_range, Outlet.mk.injEq, Graph.wire_eq_ok]
  constructor
  · rintro ⟨_, inside, rfl, rfl⟩
    exact ⟨rfl, node.outputs[_], node, found, List.getElem?_eq_getElem inside⟩
  · rintro ⟨rfl, wire, other, again, entry⟩
    rcases Option.some.inj (found.symm.trans again) with rfl
    exact ⟨index, (List.getElem?_eq_some_iff.mp entry).1, rfl, rfl⟩

theorem outletsOf_nodup (id : Nat) (node : Node) : (outletsOf id node).Nodup := by
  refine List.Nodup.map ?_ List.nodup_range
  intro first second same
  exact (Outlet.mk.inj same).2

/-- Reserving adds a buffer and a count of readers for each of the outlets. -/
theorem forM_reserve_eq_ok {g : Graph} {scheduled : List Nat} {step final : Nat}
    {outlets : List Outlet} {progress after : Progress} (distinct : outlets.Nodup)
    (done : outlets.forM (reserve g scheduled step final) progress = .ok () after) :
    (∀ outlet ∉ outlets, after.buffers.get? outlet = progress.buffers.get? outlet ∧
      after.pending.get? outlet = progress.pending.get? outlet) ∧
    ∀ outlet ∈ outlets, ∃ wire block, g.wire outlet = .ok wire ∧
      after.buffers.get? outlet = some (newBuffer g scheduled step final outlet wire block) ∧
      after.pending.get? outlet = some (scheduledReaders scheduled wire).length := by
  induction outlets generalizing progress with
  | nil =>
      rw [Stateful.forM_nil_eq_ok] at done
      subst done
      exact ⟨fun _ _ => ⟨rfl, rfl⟩, fun _ member => absurd member List.not_mem_nil⟩
  | cons head rest inductionHypothesis =>
      rcases List.nodup_cons.mp distinct with ⟨headFresh, restDistinct⟩
      rcases Stateful.forM_cons_eq_ok.mp done with ⟨between, first, later⟩
      rcases reserve_eq_ok first with ⟨wire, _, block, _, found, _, _, _, pending, buffers⟩
      rcases inductionHypothesis restDistinct later with ⟨unchanged, added⟩
      constructor
      · intro outlet outside
        rcases not_or.mp (List.mem_cons.not.mp outside) with ⟨notHead, notRest⟩
        rcases unchanged outlet notRest with ⟨sameBuffer, samePending⟩
        rw [sameBuffer, samePending, buffers, pending, OutletMap.get?_insert_of_ne _ _ notHead,
          OutletMap.get?_insert_of_ne _ _ notHead]
        exact ⟨rfl, rfl⟩
      · intro outlet member
        rcases List.mem_cons.mp member with rfl | inRest
        · rcases unchanged outlet headFresh with ⟨sameBuffer, samePending⟩
          rw [sameBuffer, samePending, buffers, pending]
          exact ⟨wire, block, found, OutletMap.get?_insert_self _ _ _,
            OutletMap.get?_insert_self _ _ _⟩
        · exact added outlet inRest

@[simp] theorem extendTo_extendTo (step : Nat) (buffer : Buffer) :
    extendTo step (extendTo step buffer) = extendTo step buffer := by
  unfold extendTo
  split <;> rfl

theorem buffers_afterRead (step : Nat) (outlet other : Outlet) (remaining : Nat)
    (progress : Progress) :
    (afterRead step outlet remaining progress).buffers.get? other =
      (progress.buffers.get? other).map fun buffer =>
        if other = outlet then extendTo step buffer else buffer := by
  unfold afterRead
  cases stored : progress.buffers.get? outlet with
  | none =>
      by_cases same : other = outlet
      · simp [same, stored]
      · simp [same]
  | some buffer =>
      simp only [OutletMap.get?_insert]
      by_cases same : other = outlet
      · simp [same, stored]
      · simp [same]

/-- What a single read does to the tables. -/
theorem finishRead_tables {step : Nat} {outlet : Outlet} {progress after : Progress}
    (done : finishRead step outlet progress = .ok () after) :
    (∀ other, after.buffers.get? other = (progress.buffers.get? other).map fun buffer =>
      if other = outlet then extendTo step buffer else buffer) ∧
    ∃ remaining, progress.pending.get? outlet = some (remaining + 1) ∧
      after.pending = progress.pending.insert outlet remaining := by
  rcases finishRead_eq_ok done with ⟨remaining, counted, ⟨_, reclaimed⟩ | ⟨_, rfl⟩⟩
  · rcases reclaim_eq_ok reclaimed with ⟨_, _, pending, buffers, _⟩
    rw [buffers, pending]
    exact ⟨fun other => buffers_afterRead step outlet other remaining progress, remaining,
      counted, rfl⟩
  · exact ⟨fun other => buffers_afterRead step outlet other remaining progress, remaining,
      counted, rfl⟩

/-- Reading extends the buffers of what is read, which has to be there, and
counts its readers down. -/
theorem forM_finishRead_eq_ok {step : Nat} {outlets : List Outlet} {progress after : Progress}
    (done : outlets.forM (finishRead step) progress = .ok () after) :
    (∀ outlet, after.buffers.get? outlet = (progress.buffers.get? outlet).map fun buffer =>
      if outlet ∈ outlets then extendTo step buffer else buffer) ∧
    (∀ outlet, progress.pending.get? outlet =
      (after.pending.get? outlet).map (· + outlets.count outlet)) ∧
    ∀ outlet ∈ outlets, ∃ count, progress.pending.get? outlet = some count := by
  induction outlets generalizing progress with
  | nil =>
      rw [Stateful.forM_nil_eq_ok] at done
      subst done
      exact ⟨fun _ => by simp, fun _ => by simp, fun _ member => absurd member List.not_mem_nil⟩
  | cons head rest inductionHypothesis =>
      rcases Stateful.forM_cons_eq_ok.mp done with ⟨between, first, later⟩
      rcases finishRead_tables first with ⟨firstBuffers, remaining, counted, firstPending⟩
      rcases inductionHypothesis later with ⟨restBuffers, restPending, restPresent⟩
      refine ⟨?_, ?_, ?_⟩
      · intro outlet
        rw [restBuffers, firstBuffers, Option.map_map]
        congr 1
        funext buffer
        by_cases isHead : outlet = head
        · simp [isHead]
        · simp [isHead]
      · intro outlet
        have step := restPending outlet
        rw [firstPending, OutletMap.get?_insert] at step
        by_cases isHead : outlet = head
        · subst isHead
          rw [if_pos rfl] at step
          rcases Option.map_eq_some_iff.mp step.symm with ⟨left, found, sum⟩
          rw [counted, found, Option.map_some, List.count_cons_self, ← sum]
          congr 1
        · rw [if_neg isHead] at step
          rw [step, List.count_cons_of_ne (Ne.symm isHead)]
      · intro outlet member
        rcases List.mem_cons.mp member with rfl | inRest
        · exact ⟨_, counted⟩
        · rcases restPresent outlet inRest with ⟨count, present⟩
          rw [firstPending, OutletMap.get?_insert] at present
          by_cases isHead : outlet = head
          · exact ⟨_, isHead ▸ counted⟩
          · rw [if_neg isHead] at present
            exact ⟨count, present⟩

theorem reclaimUnread_tables {outlet : Outlet} {progress after : Progress}
    (done : reclaimUnread outlet progress = .ok () after) :
    after.buffers = progress.buffers ∧ after.pending = progress.pending := by
  rcases reclaimUnread_eq_ok done with ⟨_, reclaimed⟩ | rfl
  · rcases reclaim_eq_ok reclaimed with ⟨_, _, pending, buffers, _⟩
    exact ⟨buffers, pending⟩
  · exact ⟨rfl, rfl⟩

theorem forM_reclaimUnread_eq_ok {outlets : List Outlet} {progress after : Progress}
    (done : outlets.forM reclaimUnread progress = .ok () after) :
    after.buffers = progress.buffers ∧ after.pending = progress.pending := by
  induction outlets generalizing progress with
  | nil =>
      rw [Stateful.forM_nil_eq_ok] at done
      subst done
      exact ⟨rfl, rfl⟩
  | cons head rest inductionHypothesis =>
      rcases Stateful.forM_cons_eq_ok.mp done with ⟨between, first, later⟩
      rcases reclaimUnread_tables first with ⟨firstBuffers, firstPending⟩
      rcases inductionHypothesis later with ⟨restBuffers, restPending⟩
      exact ⟨restBuffers.trans firstBuffers, restPending.trans firstPending⟩

/-- A node runs in three phases. -/
theorem runNode_eq_ok {g : Graph} {scheduled : List Nat} {final step id : Nat}
    {progress after : Progress}
    (done : runNode g scheduled final step id progress = .ok () after) :
    ∃ node reserved read, g.node? id = some node ∧
      (outletsOf id node).forM (reserve g scheduled step final) progress = .ok () reserved ∧
      node.producers.forM (finishRead step) reserved = .ok () read ∧
      (outletsOf id node).forM reclaimUnread read = .ok () after := by
  simp only [runNode, Stateful.bind_eq_ok, Stateful.lift_eq_ok, Graph.node_eq_ok] at done
  rcases done with ⟨node, _, ⟨found, rfl⟩, _, reserved, first, _, read, second, third⟩
  exact ⟨node, reserved, read, found, first, second, third⟩

theorem extendTo_newBuffer (g : Graph) (scheduled : List Nat) (step final : Nat)
    (outlet : Outlet) (wire : Wire) (block : Block) :
    extendTo step (newBuffer g scheduled step final outlet wire block) =
      newBuffer g scheduled step final outlet wire block := by
  unfold extendTo newBuffer
  split
  · rfl
  · next unpinned => simp only [unpinned]

/-- The tables after a node has run: its own outlets are new, and what it reads
has been read once more. -/
structure NodeTables (g : Graph) (scheduled : List Nat) (final step id : Nat) (node : Node)
    (progress after : Progress) : Prop where
  added : ∀ outlet ∈ outletsOf id node, ∃ wire block, g.wire outlet = .ok wire ∧
    after.buffers.get? outlet = some (newBuffer g scheduled step final outlet wire block)
  kept : ∀ outlet ∉ outletsOf id node,
    after.buffers.get? outlet = (progress.buffers.get? outlet).map fun buffer =>
      if outlet ∈ node.producers then extendTo step buffer else buffer
  counted : ∀ outlet, (after.pending.get? outlet).isSome ↔
    outlet ∈ outletsOf id node ∨ (progress.pending.get? outlet).isSome
  read : ∀ outlet ∈ node.producers,
    outlet ∈ outletsOf id node ∨ (progress.pending.get? outlet).isSome

theorem runNode_tables {g : Graph} {scheduled : List Nat} {final step id : Nat}
    {progress after : Progress}
    (done : runNode g scheduled final step id progress = .ok () after) :
    ∃ node, g.node? id = some node ∧
      NodeTables g scheduled final step id node progress after := by
  rcases runNode_eq_ok done with ⟨node, reserved, read, found, first, second, third⟩
  rcases forM_reserve_eq_ok (outletsOf_nodup id node) first with ⟨outside, inside⟩
  rcases forM_finishRead_eq_ok second with ⟨extended, subtracted, present⟩
  rcases forM_reclaimUnread_eq_ok third with ⟨sameBuffers, samePending⟩
  have reservedPending : ∀ outlet, (reserved.pending.get? outlet).isSome ↔
      outlet ∈ outletsOf id node ∨ (progress.pending.get? outlet).isSome := by
    intro outlet
    by_cases own : outlet ∈ outletsOf id node
    · rcases inside outlet own with ⟨_, _, _, _, count⟩
      simp [own, count]
    · simp [own, (outside outlet own).2]
  refine ⟨node, found, ?_, ?_, ?_, ?_⟩
  · intro outlet own
    rcases inside outlet own with ⟨wire, block, wired, buffer, _⟩
    refine ⟨wire, block, wired, ?_⟩
    rw [sameBuffers, extended, buffer, Option.map_some, extendTo_newBuffer, ite_self]
  · intro outlet foreign
    rw [sameBuffers, extended, (outside outlet foreign).1]
  · intro outlet
    rw [samePending, ← reservedPending, subtracted, Option.isSome_map]
  · intro outlet member
    rcases present outlet member with ⟨count, counted⟩
    exact (reservedPending outlet).mp (by rw [counted]; rfl)

end Scheduling
end TensorCompiler
