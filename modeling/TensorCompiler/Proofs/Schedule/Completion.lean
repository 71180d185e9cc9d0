import TensorCompiler.Proofs.Memory.Headroom
import TensorCompiler.Proofs.Schedule.Refusals

namespace TensorCompiler

/-!
# Schedules that are completed

A graph with sound links is scheduled without fail if its memories are without bound and large
enough to hold all of its values side by side.  For then no value is denied a buffer.  The sizes
of the values made so far add up to a ceiling that every buffer lies below, since requests are
served from the lowest addresses that will do, and the gap above the ceiling is long enough.
-/

/-! ## Sizes -/

/-- The number of bytes that a size rule reserves, or zero if it cannot tell. -/
def SizeRule.size (rule : SizeRule) (type : TensorType) : Nat :=
  match rule.bytes type with
  | .ok size => size
  | .error _ => 0

/-- The bytes that all results of a node take. -/
def Node.footprint (rule : SizeRule) (node : Node) : Nat :=
  (node.outputs.map fun wire => rule.size wire.type).sum

def Graph.footprintAt (g : Graph) (rule : SizeRule) (id : Nat) : Nat :=
  (g.node? id).elim 0 (Node.footprint rule)

/-- Every value has a size and is in a memory that is served. -/
def Graph.IsHoused (g : Graph) (rule : SizeRule) (served : MemoryKind → Prop) : Prop :=
  ∀ outlet wire, g.wire outlet = .ok wire →
    served wire.memory ∧ rule.bytes wire.type = .ok (rule.size wire.type)

theorem SizeRule.size_of_bytes {rule : SizeRule} {type : TensorType} {size : Nat}
    (sized : rule.bytes type = .ok size) : rule.size type = size := by
  rw [SizeRule.size, sized]

/-- The bytes that the value at an outlet takes. -/
def Graph.sizeAt (g : Graph) (rule : SizeRule) (outlet : Outlet) : Nat :=
  match g.wire outlet with
  | .ok wire => rule.size wire.type
  | .error _ => 0

theorem Graph.sizeAt_of_wire {g : Graph} {rule : SizeRule} {outlet : Outlet} {wire : Wire}
    (wired : g.wire outlet = .ok wire) : g.sizeAt rule outlet = rule.size wire.type := by
  rw [sizeAt, wired]

theorem Graph.sum_sizeAt {g : Graph} {rule : SizeRule} {id : Nat} {node : Node}
    (found : g.node? id = some node) :
    ((Scheduling.outletsOf id node).map (g.sizeAt rule)).sum = g.footprintAt rule id := by
  rw [Scheduling.outletsOf, List.map_map, footprintAt, found, Option.elim_some, Node.footprint]
  congr 1
  apply List.ext_getElem
  · simp
  · intro index inside _
    simp only [List.length_map, List.length_range] at inside
    have wired : g.wire ⟨id, index⟩ = .ok node.outputs[index] :=
      wire_eq_ok.mpr ⟨node, found, List.getElem?_eq_getElem inside⟩
    simp [sizeAt_of_wire wired]

namespace Scheduling

open TensorCompiler.Graph

/-! ## The ceiling -/

/-- Every buffer lies below a ceiling, and in the memories that are served everything from the
ceiling on is free. -/
structure Capped (rule : SizeRule) (served : MemoryKind → Prop) (progress : Progress)
    (ceiling : Nat) : Prop where
  rooms : ∀ kind allocator, served kind → progress.allocators.get kind = some allocator →
    allocator.rule = rule ∧ allocator.space.WellFormed ∧ allocator.space.Clear ceiling
  below : ∀ outlet buffer, progress.buffers.get? outlet = some buffer →
    buffer.block.offset + buffer.block.size ≤ ceiling

section

variable {g : Graph} {rule : SizeRule} {served : MemoryKind → Prop} {progress after : Progress}
  {ceiling step final : Nat} {scheduled ids : List Nat} {outlet : Outlet}

/-- A new buffer raises the ceiling by its size. -/
theorem Capped.reserve (capped : Capped rule served progress ceiling)
    (housed : g.IsHoused rule served) (room : ceiling + g.sizeAt rule outlet ≤ Word.largest)
    (done : Scheduling.reserve g scheduled step final outlet progress = .ok () after) :
    Capped rule served after (ceiling + g.sizeAt rule outlet) := by
  rcases reserve_eq_ok done with
    ⟨wire, allocator, block, rest, wired, present, given, allocators, -, buffers⟩
  rcases housed outlet wire wired with ⟨isServed, sized⟩
  rcases capped.rooms wire.memory allocator isServed present with ⟨rfl, wellFormed, clear⟩
  rcases Allocator.space_of_allocate given with ⟨size, sizeKnown, found⟩
  rcases Except.ok.inj (sizeKnown.symm.trans sized) with rfl
  rw [sizeAt_of_wire wired] at room ⊢
  rcases FreeSpace.allocate_eq_some wellFormed found with ⟨nowWellFormed, -⟩
  rcases FreeSpace.clear_of_allocate wellFormed clear room found with ⟨low, nowClear⟩
  constructor
  · intro kind owner kindServed nowPresent
    rw [allocators, PerKind.get_set] at nowPresent
    split at nowPresent
    · rcases Option.some.inj nowPresent with rfl
      exact ⟨Allocator.rule_of_allocate given, nowWellFormed, nowClear⟩
    · rcases capped.rooms kind owner kindServed nowPresent with ⟨sameRule, formed, wasClear⟩
      exact ⟨sameRule, formed, fun address above => wasClear address (by omega)⟩
  · intro other buffer stored
    rw [buffers] at stored
    rcases OutletMap.get?_insert_eq_some.mp stored with ⟨_, rfl⟩ | ⟨_, before⟩
    · exact low
    · exact Nat.le_trans (capped.below other buffer before) (Nat.le_add_right _ _)

theorem Capped.afterRead (capped : Capped rule served progress ceiling) (remaining : Nat) :
    Capped rule served (afterRead step outlet remaining progress) ceiling where
  rooms := capped.rooms
  below other buffer nowStored := by
    rcases exists_before_afterRead nowStored with ⟨earlier, _, stored, rfl, -⟩
    exact capped.below other earlier stored

theorem Capped.reclaim (capped : Capped rule served progress ceiling)
    (done : Scheduling.reclaim outlet progress = .ok () after) :
    Capped rule served after ceiling := by
  rcases reclaim_eq_ok done with
    ⟨buffer, -, -, buffers, ⟨same, -⟩ | ⟨-, allocator, rest, present, released, changed⟩⟩
  · exact ⟨same ▸ capped.rooms, buffers ▸ capped.below⟩
  · refine ⟨?_, buffers ▸ capped.below⟩
    intro kind owner kindServed nowPresent
    rw [changed, PerKind.get_set] at nowPresent
    split at nowPresent
    · next same =>
      rcases Option.some.inj nowPresent with rfl
      rcases capped.rooms kind allocator kindServed (same ▸ present) with
        ⟨sameRule, formed, clear⟩
      rcases FreeSpace.release_eq_ok formed (Allocator.space_of_release released) with
        ⟨nowFormed, isFree, -⟩
      exact ⟨(Allocator.rule_of_release released).trans sameRule, nowFormed,
        fun address above inside => (isFree address).mpr (Or.inl (clear address above inside))⟩
    · exact capped.rooms kind owner kindServed nowPresent

theorem Capped.finishRead (capped : Capped rule served progress ceiling)
    (done : Scheduling.finishRead step outlet progress = .ok () after) :
    Capped rule served after ceiling := by
  rcases finishRead_eq_ok done with ⟨remaining, _, ⟨_, reclaimed⟩ | ⟨_, rfl⟩⟩
  · exact (capped.afterRead remaining).reclaim reclaimed
  · exact capped.afterRead remaining

theorem Capped.reclaimUnread (capped : Capped rule served progress ceiling)
    (done : Scheduling.reclaimUnread outlet progress = .ok () after) :
    Capped rule served after ceiling := by
  rcases reclaimUnread_eq_ok done with ⟨_, reclaimed⟩ | rfl
  · exact capped.reclaim reclaimed
  · exact capped

theorem Capped.reserveAll {outlets : List Outlet} (capped : Capped rule served progress ceiling)
    (housed : g.IsHoused rule served)
    (room : ceiling + (outlets.map (g.sizeAt rule)).sum ≤ Word.largest)
    (done : outlets.forM (Scheduling.reserve g scheduled step final) progress = .ok () after) :
    Capped rule served after (ceiling + (outlets.map (g.sizeAt rule)).sum) := by
  induction outlets generalizing progress ceiling with
  | nil => exact Stateful.forM_nil_eq_ok.mp done ▸ capped
  | cons outlet rest inductionHypothesis =>
      rcases Stateful.forM_cons_eq_ok.mp done with ⟨between, first, others⟩
      rw [List.map_cons, List.sum_cons, ← Nat.add_assoc] at room ⊢
      have fits := Nat.le_trans (Nat.le_add_right _ _) room
      exact inductionHypothesis (capped.reserve housed fits first) room others

/-- The nodes that run raise the ceiling by the sizes of their results. -/
theorem Capped.run (capped : Capped rule served progress ceiling) (housed : g.IsHoused rule served)
    (room : ceiling + (ids.map (g.footprintAt rule)).sum ≤ Word.largest)
    (done : runNodes g scheduled final step ids progress = .ok () after) :
    Capped rule served after (ceiling + (ids.map (g.footprintAt rule)).sum) := by
  induction ids generalizing progress ceiling step with
  | nil =>
      rcases Stateful.pure_eq_ok.mp done with ⟨-, rfl⟩
      exact capped
  | cons id rest inductionHypothesis =>
      rcases Stateful.bind_eq_ok.mp done with ⟨_, between, first, others⟩
      rcases runNode_eq_ok first with ⟨node, reserved, read, found, reserving, reading, reclaiming⟩
      rw [List.map_cons, List.sum_cons, ← Nat.add_assoc] at room ⊢
      have fits := Nat.le_trans (Nat.le_add_right _ _) room
      rw [← sum_sizeAt found] at fits room ⊢
      have reservedCapped := capped.reserveAll housed fits reserving
      generalize ceiling + ((outletsOf id node).map (g.sizeAt rule)).sum = raised at *
      have readCapped := Stateful.forM_keeps
        (fun _ state _ (capped : Capped rule served state raised) => capped.finishRead)
        reservedCapped reading
      have nowCapped := Stateful.forM_keeps
        (fun _ state _ (capped : Capped rule served state raised) => capped.reclaimUnread)
        readCapped reclaiming
      exact inductionHypothesis nowCapped room others

/-- With room above the ceiling no value is denied a buffer. -/
theorem Capped.not_denied {allocators : Allocators} {inUse : Outlet → Buffer → Prop}
    {error : Error} (capped : Capped rule served progress ceiling) (housed : g.IsHoused rule served)
    (rooms : ∀ kind, served kind → ∃ owner, allocators.get kind = some (.new owner none rule))
    (room : ceiling + g.sizeAt rule outlet ≤ Word.largest) :
    ¬ Denied g allocators inUse progress.buffers outlet error := by
  intro denied
  rcases denied.exists_wire with ⟨wire, wired⟩
  rcases housed outlet wire wired with ⟨isServed, sized⟩
  rcases rooms wire.memory isServed with ⟨owner, present⟩
  rw [sizeAt_of_wire wired] at room
  refine Scheduling.not_denied wired present sized (fun refused => refused.2 ?_) denied
  refine ⟨ceiling, ?_, ?_⟩
  · rintro address ⟨-, inside⟩
    exact FreeSpace.clear_unbounded address (Nat.zero_le _) (Nat.lt_of_lt_of_le inside room)
  · rintro block ⟨other, buffer, stored, -, rfl, -⟩ ⟨address, ⟨-, high⟩, low, -⟩
    have below := capped.below other buffer stored
    exact absurd (Nat.lt_of_le_of_lt low high) (Nat.not_lt.mpr below)

end

end Scheduling

open Scheduling in
/-- A graph with sound links is scheduled without fail if its memories are unbounded and
all of its values fit into one of them side by side. -/
theorem Graph.exists_schedule {g : Graph} {allocators : Allocators} {rule : SizeRule}
    {served : MemoryKind → Prop} {root : Nat} (linked : g.Linked) (acyclic : g.Acyclic)
    (declared : root ∈ g.outputs) (present : g.contains root = true)
    (reached : ∀ kind allocator, allocators.get kind = some allocator → allocator.Reached)
    (rooms : ∀ kind, served kind → ∃ owner, allocators.get kind = some (.new owner none rule))
    (housed : g.IsHoused rule served)
    (room : (g.postorder.map (g.footprintAt rule)).sum ≤ Word.largest) (journal : Journal) :
    ∃ schedule after, g.schedule allocators journal = .ok schedule after := by
  have nonempty : g.postorder ≠ [] := List.ne_nil_of_mem (mem_postorder_of_output declared present)
  have sized : Sized g allocators g.postorder := by
    intro outlet wire allocator _ wired given
    rcases housed outlet wire wired with ⟨isServed, bytes⟩
    rcases rooms wire.memory isServed with ⟨owner, new⟩
    rcases Option.some.inj (given.symm.trans new) with rfl
    exact ⟨_, bytes⟩
  have start : Capped rule served ⟨allocators, .empty, .empty, journal⟩ 0 := by
    constructor
    · intro kind allocator isServed given
      rcases rooms kind isServed with ⟨owner, new⟩
      rcases Option.some.inj (given.symm.trans new) with rfl
      exact ⟨rfl, (reached kind _ given).wellFormed, FreeSpace.clear_unbounded⟩
    · intro outlet buffer stored
      simp at stored
  apply Stateful.failure?_eq_none.mp
  apply Option.eq_none_iff_forall_ne_some.mpr
  intro failure fails
  rw [failure?_schedule (List.ne_nil_of_mem declared) nonempty] at fails
  rcases (failure?_run linked (arranged_postorder linked.faithful acyclic) reached sized).mp fails
    with ⟨error, rfl, earlier, id, later, between, order, done, halts⟩
  rcases halts with ⟨found, results, placed, denied⟩
  rw [order, List.map_append, List.sum_append, List.map_cons, List.sum_cons, ← sum_sizeAt found,
    results, List.map_append, List.sum_append, List.map_cons, List.sum_cons] at room
  have betweenCapped := start.run housed (by omega) done
  have reservedCapped := betweenCapped.reserveAll housed (by omega) placed
  exact reservedCapped.not_denied housed rooms (by omega) denied

end TensorCompiler
