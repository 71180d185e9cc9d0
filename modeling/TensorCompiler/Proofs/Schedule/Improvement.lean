import TensorCompiler.Proofs.Construction.Sessions
import TensorCompiler.Proofs.Schedule.Accounting
import TensorCompiler.Proofs.Schedule.Execution

namespace TensorCompiler

/-!
# Packing improves a schedule or leaves it alone

Packing comes to an end if the sizes of each memory add up to a word, and returns the schedule
that it was given, or a better one.  A memory is either left as it is or gets a placement that
is lower than the old one and fits.  The marks are then taken from the buffers anew, and since
lifetimes do not change, neither do the bytes alive at a step, and these stay below the marks.

The peaks that a schedule reports stay what they were.  They are those of the buffers if the
allocators were unused, and then they stay below the marks as well.  A peak may also count
bytes that were given out before the schedule was made, and no mark of buffers knows of them.
-/

namespace Schedule

section

variable {g : Graph} {schedule packed : Schedule} {capacities : PerKind (Option Nat)}
  {shuffles : Shuffles} {kind : MemoryKind} {buffers : List Buffer}
  {entries : List (MemoryKind × List Buffer)}

/-! ## Marks taken anew -/

/-- What a run of packing was: it gave the schedule back, or packed some memories and took
the marks anew. -/
theorem pack_eq_ok {budget : Nat} {journal after : Journal} {changed : Bool}
    (done : schedule.pack capacities budget shuffles journal = .ok (changed, packed) after) :
    (changed = false ∧ packed = schedule) ∨
      (changed = true ∧ ∃ moved between,
        packKinds capacities shuffles schedule.packable schedule journal =
          .ok (true, moved) between ∧ moved.withHighWater = .ok packed) := by
  unfold Schedule.pack at done
  split at done
  · rw [Stateful.pure_eq_ok, Prod.mk.injEq] at done
    exact Or.inl ⟨done.1.1.symm, done.1.2.symm⟩
  · simp only [Stateful.bind_eq_ok] at done
    rcases done with ⟨⟨improved, moved⟩, between, attempted, done⟩
    cases improved with
    | false =>
        simp only [Bool.false_eq_true, if_false, Stateful.pure_eq_ok, Prod.mk.injEq] at done
        exact Or.inl ⟨done.1.1.symm, done.1.2.symm⟩
    | true =>
        simp only [if_true, Stateful.bind_eq_ok, Stateful.lift_eq_ok, Stateful.pure_eq_ok,
          Prod.mk.injEq] at done
        rcases done with ⟨_, _, ⟨marked, _⟩, ⟨rfl, rfl⟩, _⟩
        exact Or.inr ⟨rfl, moved, between, attempted, marked⟩

theorem Sound.placeable (sound : schedule.Sound g)
    (room : ∀ kind, ((schedule.buffersOf kind).map fun buffer => buffer.block.size).sum ≤
      Word.largest) : schedule.Placeable where
  ordered kind _ buffer member := by
    rcases mem_buffersOf.mp member with ⟨⟨outlet, stored⟩, _⟩
    exact sound.first_le_last stored
  room kind _ := room kind

/-- The buffers of a schedule end below its marks. -/
def Covered (schedule : Schedule) : Prop :=
  ∀ kind, schedule.highestEnd kind ≤ schedule.highWater.get kind

end

end Schedule

end TensorCompiler
