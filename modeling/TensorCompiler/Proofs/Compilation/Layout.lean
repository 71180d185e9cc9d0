import TensorCompiler.Proofs.Compilation.Passes
import TensorCompiler.Proofs.Compilation.Stages
import TensorCompiler.Proofs.Schedule.Packing

namespace TensorCompiler

/-!
# No overlap is ever reported

Scheduling and packing are quiet.  The checks that compiling makes in between are
not, but they are made of sound schedules, and those they accept.  So compiling
never ends with the report of an overlap.
-/

open Stateful (Quiet)

/-! ## Memory -/

@[simp] theorem Block.quiet_stop (block : Block) : block.stop.Quiet := by simp [stop]

@[simp] theorem Block.quiet_overlaps (first second : Block) : (first.overlaps second).Quiet := by
  simp [overlaps]

namespace FreeSpace

@[simp] theorem quiet_putBefore (span : Span) (spans : List Span) :
    (putBefore span spans).Quiet := by
  unfold putBefore
  split <;> simp

@[simp] theorem quiet_put (span : Span) (spans : List Span) : (put span spans).Quiet := by
  unfold put
  simp only
  split <;> simp

@[simp] theorem quiet_release (space : FreeSpace) (block : Block) :
    (space.release block).Quiet := by
  simp [release]

end FreeSpace

@[simp] theorem SizeRule.quiet_bytes (rule : SizeRule) (type : TensorType) :
    (rule.bytes type).Quiet :=
  (rule.refusesNothing type).quiet

namespace Allocator

@[simp] theorem quiet_sizeOf (allocator : Allocator) (type : TensorType) :
    (allocator.sizeOf type).Quiet := by
  simp [sizeOf]

@[simp] theorem quiet_allocate (allocator : Allocator) (type : TensorType) :
    (allocator.allocate type).Quiet := by
  refine Checked.failsOnly_bind.mpr ⟨allocator.quiet_sizeOf type, fun _ _ => ?_⟩
  split <;> simp

@[simp] theorem quiet_release (allocator : Allocator) (block : Block) :
    (allocator.release block).Quiet := by
  simp [release]

end Allocator

/-! ## Scheduling -/

namespace Scheduling

theorem quiet_reserve (g : Graph) (scheduled : List Nat) (step final : Nat) (outlet : Outlet) :
    Quiet (reserve g scheduled step final outlet) := by
  refine (Stateful.quiet_lift (by simp)).bind fun _ => (Stateful.quiet_lift (by simp)).bind fun _ =>
    Stateful.quiet_get.bind fun _ => ?_
  split
  · exact Stateful.quiet_refuse (by simp)
  · refine (Stateful.quiet_lift (by simp)).bind fun _ => ?_
    split
    · exact (Stateful.quiet_lift (by simp)).bind fun _ => Stateful.quiet_refuse (by simp)
    · exact Stateful.quiet_set _

theorem quiet_reclaim (outlet : Outlet) : Quiet (reclaim outlet) := by
  refine Stateful.quiet_get.bind fun _ => ?_
  split
  · exact Stateful.quiet_refuse (by simp)
  · apply Stateful.quiet_ite (Stateful.quiet_pure _)
    split
    · exact Stateful.quiet_pure _
    · exact (Stateful.quiet_lift (by simp)).bind fun _ => Stateful.quiet_set _

theorem quiet_finishRead (step : Nat) (outlet : Outlet) : Quiet (finishRead step outlet) := by
  refine Stateful.quiet_get.bind fun _ => ?_
  split
  · exact Stateful.quiet_refuse (by simp)
  · refine (Stateful.quiet_lift (by simp)).bind fun _ => (Stateful.quiet_set _).bind fun _ => ?_
    exact Stateful.quiet_ite (quiet_reclaim outlet) (Stateful.quiet_pure _)

theorem quiet_reclaimUnread (outlet : Outlet) : Quiet (reclaimUnread outlet) :=
  Stateful.quiet_get.bind fun _ =>
    Stateful.quiet_ite (quiet_reclaim outlet) (Stateful.quiet_pure _)

theorem quiet_runNodes (g : Graph) (scheduled : List Nat) (final step : Nat) (ids : List Nat) :
    Quiet (runNodes g scheduled final step ids) := by
  induction ids generalizing step with
  | nil => exact Stateful.quiet_pure _
  | cons id rest inductionHypothesis =>
      have node : Quiet (runNode g scheduled final step id) :=
        (Stateful.quiet_lift (by simp)).bind fun _ =>
          (Stateful.quiet_forM (quiet_reserve g scheduled step final) _).bind fun _ =>
          (Stateful.quiet_forM (quiet_finishRead step) _).bind fun _ =>
          Stateful.quiet_forM quiet_reclaimUnread _
      exact node.bind fun _ => inductionHypothesis (step + 1)

end Scheduling

theorem Graph.quiet_schedule (g : Graph) (allocators : Allocators) :
    Quiet (g.schedule allocators) := by
  rintro journal failure after failed
  unfold Graph.schedule at failed
  split at failed
  · rcases EStateM.Result.error.inj failed with ⟨rfl, rfl⟩
    rintro ⟨_, _, _, impossible⟩
    cases impossible
  · simp only at failed
    split at failed
    · next cause stopped =>
      rcases EStateM.Result.error.inj failed with ⟨rfl, rfl⟩
      exact Word.quiet_sub _ _ cause stopped
    · split at failed
      · next cause progress stopped =>
        rcases EStateM.Result.error.inj failed with ⟨rfl, rfl⟩
        exact Scheduling.quiet_runNodes _ _ _ _ _ _ cause progress stopped
      · cases failed

/-! ## Packing -/

namespace Schedule

@[simp] theorem quiet_lowestGap (size offset : Nat) (blocked : List Span) :
    (lowestGap size offset blocked).Quiet := by
  induction blocked generalizing offset with
  | nil => simp [lowestGap]
  | cons span rest inductionHypothesis => simp [lowestGap, inductionHypothesis]

@[simp] theorem quiet_placeAll (order placed : List Candidate) (high : Nat) :
    (placeAll order placed high).Quiet := by
  induction order generalizing placed high with
  | nil => simp [placeAll]
  | cons candidate rest inductionHypothesis =>
      simp [placeAll, blockedSpans, inductionHypothesis]

@[simp] theorem quiet_bestOf (orders : List (List Candidate)) (best : List Candidate × Nat) :
    (bestOf orders best).Quiet := by
  induction orders generalizing best with
  | nil => simp [bestOf]
  | cons order rest inductionHypothesis => simp [bestOf, place, inductionHypothesis]

@[simp] theorem quiet_bestPlacement (shuffles : List Shuffle) (buffers : List Buffer) :
    (bestPlacement shuffles buffers).Quiet := by
  simp [bestPlacement, place, longestFirst]

@[simp] theorem quiet_findM? (living : List Buffer) (buffer : Buffer) :
    Checked.Quiet (living.findM? fun other => other.block.overlaps buffer.block) := by
  induction living with
  | nil => simp [List.findM?]
  | cons other rest inductionHypothesis =>
      refine Checked.failsOnly_bind.mpr ⟨by simp, fun found _ => ?_⟩
      cases found
      · exact inductionHypothesis
      · simp

@[simp] theorem quiet_sweepConflicts (buffers : List Buffer) (living : PerKind (List Buffer)) :
    (sweepConflicts buffers living).Quiet := by
  induction buffers generalizing living with
  | nil => simp [sweepConflicts]
  | cons buffer rest inductionHypothesis =>
      refine Checked.failsOnly_bind.mpr ⟨by simp, fun found _ => ?_⟩
      cases found
      · exact inductionHypothesis _
      · simp

@[simp] theorem quiet_findConflict (buffers : List Buffer) : (findConflict buffers).Quiet := by
  simp [findConflict]

theorem quiet_packKind (capacities : PerKind (Option Nat)) (shuffles : Shuffles)
    (kind : MemoryKind) (buffers : List Buffer) (schedule : Schedule) :
    Quiet (packKind capacities shuffles kind buffers schedule) := by
  refine (Stateful.quiet_lift (by simp)).bind fun _ => Stateful.quiet_ite ?_ ?_
  · exact (Stateful.quiet_modify _).bind fun _ => Stateful.quiet_pure _
  · refine (Stateful.quiet_lift (by simp)).bind fun found => ?_
    cases found with
    | none => exact (Stateful.quiet_modify _).bind fun _ => Stateful.quiet_pure _
    | some conflict => exact (Stateful.quiet_modify _).bind fun _ => Stateful.quiet_pure _

theorem quiet_packKinds (capacities : PerKind (Option Nat)) (shuffles : Shuffles)
    (entries : List (MemoryKind × List Buffer)) (schedule : Schedule) :
    Quiet (packKinds capacities shuffles entries schedule) := by
  induction entries generalizing schedule with
  | nil => exact Stateful.quiet_pure _
  | cons entry rest inductionHypothesis =>
      refine (quiet_packKind capacities shuffles entry.1 entry.2 schedule).bind fun packed => ?_
      cases packed with
      | none => exact inductionHypothesis schedule
      | some packed => exact (inductionHypothesis packed).bind fun _ => Stateful.quiet_pure _

theorem quiet_pack (schedule : Schedule) (capacities : PerKind (Option Nat)) (budget : Nat)
    (shuffles : Shuffles) : Quiet (schedule.pack capacities budget shuffles) := by
  apply Stateful.quiet_ite (Stateful.quiet_pure _)
  refine (quiet_packKinds capacities shuffles _ schedule).bind fun _ => Stateful.quiet_ite ?_ ?_
  · have raise : ∀ marks buffer, (raiseHighWater marks buffer).Quiet := by simp [raiseHighWater]
    exact (Stateful.quiet_lift (by simp [withHighWater, raise])).bind fun _ => Stateful.quiet_pure _
  · exact Stateful.quiet_pure _

end Schedule

/-! ## Compiling -/

@[simp] theorem Target.quiet_check (target : Target) (g : Graph) : (target.check g).Quiet := by
  unfold check
  induction g.postorder with
  | nil => simp [checkNodes]
  | cons id rest inductionHypothesis => simp [checkNodes, inductionHypothesis]

theorem Work.quiet_recorded {α : Type} {run : Recorded α} (quiet : Quiet run) :
    Quiet (Work.recorded run) := by
  intro bench failure after failed
  unfold recorded at failed
  cases ended : run bench.journal with
  | ok value journal =>
      rw [ended] at failed
      cases failed
  | error cause journal =>
      rw [ended] at failed
      rcases EStateM.Result.error.inj failed with ⟨rfl, rfl⟩
      exact quiet bench.journal cause journal ended

section

variable {g : Graph} {schedule : Schedule} {target : Target} {options : CompileOptions}

/-- Packing a sound schedule leaves it sound, and the check accepts the result. -/
theorem Schedule.Sound.quiet_packWithin (sound : schedule.Sound g)
    (capacities : PerKind (Option Nat)) (budget : Option Nat) (shuffles : Schedule.Shuffles) :
    Quiet (packWithin g capacities budget shuffles schedule) := by
  cases budget with
  | none => exact Stateful.quiet_pure _
  | some budget =>
      intro bench failure after failed
      rcases Stateful.bind_eq_error.mp failed with
        stopped | ⟨⟨changed, packed⟩, between, done, rest⟩
      · exact Work.quiet_recorded (quiet_pack schedule capacities budget shuffles) bench failure
          after
          stopped
      · rcases Work.recorded_eq_ok.mp done with ⟨attempted, _⟩
        rcases sound.pack attempted with ⟨packedSound, _⟩
        have checked : (liftM (packed.verify g) : Work Unit) between = .ok () between :=
          Stateful.lift_eq_ok.mpr ⟨packedSound.verify_eq_ok g, rfl⟩
        cases changed with
        | true => cases (Stateful.bind_of_ok checked).symm.trans rest
        | false => cases rest

theorem Schedule.Sound.quiet_settle (sound : schedule.Sound g) (stats : PipelineStats) :
    Quiet (settle target options stats g schedule) :=
  (sound.quiet_packWithin _ _ _).bind fun _ =>
    (Work.quiet_note _).bind fun _ => Stateful.quiet_pure _

/-- A new schedule is sound, so checking it does not fail. -/
theorem quiet_layOut
    (reached : ∀ kind allocator, target.allocators.get kind = some allocator → allocator.Reached)
    (stats : PipelineStats) : Quiet (layOut target options stats) := by
  refine Stateful.quiet_get.bind fun bench => (Stateful.quiet_lift (by simp)).bind fun _ => ?_
  intro start failure after failed
  rcases Stateful.bind_eq_error.mp failed with stopped | ⟨schedule, between, done, rest⟩
  · exact Work.quiet_recorded (bench.graph.quiet_schedule _) start failure after stopped
  · rcases Work.recorded_eq_ok.mp done with ⟨scheduled, _⟩
    have sound := Graph.schedule_sound reached scheduled
    simp only at rest
    split at rest
    · have checked : (liftM (schedule.verify bench.graph) : Work Unit) between = .ok () between :=
        Stateful.lift_eq_ok.mpr ⟨sound.verify_eq_ok bench.graph, rfl⟩
      rw [Stateful.bind_of_ok checked] at rest
      exact sound.quiet_settle stats between failure after rest
    · exact sound.quiet_settle stats between failure after rest

theorem quiet_compile (quiet : target.IsQuiet)
    (reached : ∀ kind allocator, target.allocators.get kind = some allocator → allocator.Reached) :
    Quiet (compile target options) := by
  rintro ⟨g, journal⟩ failure after failed
  rw [compile_eq] at failed
  split at failed
  · rcases EStateM.Result.error.inj failed with ⟨rfl, rfl⟩
    rintro ⟨_, _, _, impossible⟩
    cases impossible
  · have ran : Quiet (Pipeline.run ⟨target.passes, options.maxRounds, options.maxApplied⟩) :=
      Pipeline.quiet_run quiet
    exact ran.bind (fun stats => quiet_layOut reached stats) _ failure after failed

end

end TensorCompiler
