import TensorCompiler.Proofs.Outcome

namespace TensorCompiler

/-!
# Kinds of failures

Some arguments do not ask whether a computation fails, but only why it may.  The
failures that are admitted form a kind.  A computation fails only with failures of a
kind if its parts do, so the question is passed on to the functions that are called,
down to those that refuse or abort something themselves.

Two kinds are of use.  One leaves out the report that two buffers overlap.  The other has
the refusals in it, and the overflow if there is a reason for it.
-/

/-- A failure is the report that two buffers overlap. -/
def Failure.IsOverlap (failure : Failure) : Prop :=
  ∃ first second kind, failure = .refused (.overlappingBuffers first second kind)

/-- A failure is a refusal, or the overflow that something too large gives rise to. -/
def Failure.Excused (large : Prop) (failure : Failure) : Prop :=
  ∀ cause, failure = .aborted cause → cause = .overflow ∧ large

variable {α β σ : Type} {kind : Failure → Prop}

/-! ## Without a state -/

namespace Checked

/-- Whenever a computation fails, the failure is of the given kind. -/
def FailsOnly (kind : Failure → Prop) (run : Checked α) : Prop :=
  ∀ failure, run = .error failure → kind failure

theorem FailsOnly.imp {other : Failure → Prop} {run : Checked α} (fails : run.FailsOnly kind)
    (larger : ∀ failure, kind failure → other failure) : run.FailsOnly other :=
  fun failure failed => larger failure (fails failure failed)

@[simp] theorem failsOnly_ok (value : α) : FailsOnly kind (.ok value : Checked α) := by
  intro failure impossible
  cases impossible

@[simp] theorem failsOnly_error {failure : Failure} :
    FailsOnly kind (.error failure : Checked α) ↔ kind failure := by
  constructor
  · intro fails
    exact fails failure rfl
  · rintro admitted _ same
    exact Except.error.inj same ▸ admitted

@[simp] theorem failsOnly_pure (value : α) : FailsOnly kind (pure value : Checked α) :=
  failsOnly_ok value

@[simp] theorem failsOnly_refuse {error : Error} :
    FailsOnly kind (refuse error : Checked α) ↔ kind (.refused error) :=
  failsOnly_error

@[simp] theorem failsOnly_abort {cause : Abort} :
    FailsOnly kind (abort cause : Checked α) ↔ kind (.aborted cause) :=
  failsOnly_error

@[simp] theorem failsOnly_map {run : Checked α} {change : α → β} :
    (change <$> run).FailsOnly kind ↔ run.FailsOnly kind := by
  cases run with
  | ok value => exact iff_of_true (failsOnly_ok _) (failsOnly_ok _)
  | error failure => exact failsOnly_error.trans failsOnly_error.symm

@[simp] theorem failsOnly_bind {first : Checked α} {next : α → Checked β} :
    (first >>= next).FailsOnly kind ↔
      first.FailsOnly kind ∧ ∀ value, first = .ok value → (next value).FailsOnly kind := by
  cases first with
  | ok value =>
      constructor
      · intro fails
        exact ⟨failsOnly_ok value, fun _ same => Except.ok.inj same ▸ fails⟩
      · rintro ⟨_, fails⟩
        exact fails value rfl
  | error failure =>
      constructor
      · intro fails
        refine ⟨failsOnly_error.mpr (failsOnly_error.mp fails), fun _ impossible => ?_⟩
        cases impossible
      · rintro ⟨fails, _⟩
        exact failsOnly_error.mpr (failsOnly_error.mp fails)

@[simp] theorem failsOnly_ite {condition : Prop} [Decidable condition]
    {first second : Checked α} :
    FailsOnly kind (if condition then first else second) ↔
      (condition → first.FailsOnly kind) ∧ (¬ condition → second.FailsOnly kind) := by
  split
  · next holds => simp [holds]
  · next fails => simp [fails]

theorem failsOnly_guard {condition : Prop} [Decidable condition] {error : Error}
    {next : Unit → Checked α} :
    FailsOnly kind (if condition then refuse error >>= next else next ()) ↔
      (condition → kind (.refused error)) ∧ (¬ condition → (next ()).FailsOnly kind) := by
  simp

@[simp] theorem failsOnly_mapM {run : α → Checked β}
    (each : ∀ item, (run item).FailsOnly kind) (items : List α) :
    (items.mapM run).FailsOnly kind := by
  induction items with
  | nil => exact failsOnly_pure []
  | cons item rest inductionHypothesis => simp [List.mapM_cons, each, inductionHypothesis]

@[simp] theorem failsOnly_foldlM {run : β → α → Checked β}
    (each : ∀ result item, (run result item).FailsOnly kind) (start : β) (items : List α) :
    (items.foldlM run start).FailsOnly kind := by
  induction items generalizing start with
  | nil => exact failsOnly_pure start
  | cons item rest inductionHypothesis => simp [List.foldlM_cons, each, inductionHypothesis]

end Checked

/-! ## With a state -/

namespace Stateful

/-- The same of a computation that starts in a state. -/
def FailsOnly (kind : Failure → Prop) (run : EStateM Failure σ α) (state : σ) : Prop :=
  ∀ failure after, run state = .error failure after → kind failure

variable {state : σ}

theorem failsOnly_of_ok {run : EStateM Failure σ α} {value : α} {after : σ}
    (succeeds : run state = .ok value after) : FailsOnly kind run state := by
  intro failure _ failed
  cases succeeds.symm.trans failed

@[simp] theorem failsOnly_pure (value : α) :
    FailsOnly kind (pure value : EStateM Failure σ α) state :=
  failsOnly_of_ok rfl

@[simp] theorem failsOnly_get : FailsOnly kind (get : EStateM Failure σ σ) state :=
  failsOnly_of_ok rfl

@[simp] theorem failsOnly_lift {run : Checked α} :
    FailsOnly kind (liftM run : EStateM Failure σ α) state ↔ run.FailsOnly kind := by
  cases run with
  | ok value => exact iff_of_true (failsOnly_pure value) (Checked.failsOnly_ok value)
  | error failure =>
      rw [Checked.failsOnly_error]
      constructor
      · intro fails
        exact fails failure state rfl
      · rintro admitted _ after same
        exact (EStateM.Result.error.inj same).1 ▸ admitted

@[simp] theorem failsOnly_refuse {error : Error} :
    FailsOnly kind (refuse error : EStateM Failure σ α) state ↔ kind (.refused error) := by
  change FailsOnly kind (liftM (refuse error : Checked α) : EStateM Failure σ α) state ↔ _
  rw [failsOnly_lift, Checked.failsOnly_refuse]

@[simp] theorem failsOnly_bind {first : EStateM Failure σ α} {next : α → EStateM Failure σ β} :
    FailsOnly kind (first >>= next) state ↔ FailsOnly kind first state ∧
      ∀ value between, first state = .ok value between → FailsOnly kind (next value) between := by
  simp only [FailsOnly, bind_eq_error]
  constructor
  · intro fails
    exact ⟨fun failure after failed => fails failure after (Or.inl failed),
      fun value between done failure after failed =>
        fails failure after (Or.inr ⟨value, between, done, failed⟩)⟩
  · rintro ⟨firstFails, nextFails⟩ failure after (failed | ⟨value, between, done, failed⟩)
    · exact firstFails failure after failed
    · exact nextFails value between done failure after failed

@[simp] theorem failsOnly_map {run : EStateM Failure σ α} {change : α → β} :
    FailsOnly kind (change <$> run) state ↔ FailsOnly kind run state := by
  rw [map_eq_pure_bind, failsOnly_bind]
  simp

@[simp] theorem failsOnly_ite {condition : Prop} [Decidable condition]
    {first second : EStateM Failure σ α} :
    FailsOnly kind (if condition then first else second) state ↔
      (condition → FailsOnly kind first state) ∧
        (¬ condition → FailsOnly kind second state) := by
  split
  · next holds => simp [holds]
  · next fails => simp [fails]

theorem failsOnly_forM {body : α → EStateM Failure σ PUnit}
    (each : ∀ item state, FailsOnly kind (body item) state) (items : List α) (state : σ) :
    FailsOnly kind (items.forM body) state := by
  induction items generalizing state with
  | nil => exact failsOnly_pure _
  | cons item rest inductionHypothesis =>
      exact failsOnly_bind.mpr ⟨each item state, fun _ between _ => inductionHypothesis between⟩

end Stateful

/-! ## Kinds that have refusals in them -/

/-- A kind has every refusal in it, but for the report of an overlap. -/
def Failure.Admits (kind : Failure → Prop) : Prop :=
  ∀ error, ¬ (Failure.refused error).IsOverlap → kind (.refused error)

@[simp] theorem Failure.isOverlap_refused {error : Error} :
    (Failure.refused error).IsOverlap ↔
      ∃ first second kind, error = .overlappingBuffers first second kind := by
  simp [IsOverlap]

@[simp] theorem Failure.not_isOverlap_aborted (cause : Abort) :
    ¬ (Failure.aborted cause).IsOverlap := by
  simp [IsOverlap]

@[simp] theorem Failure.excused_refused {large : Prop} (error : Error) :
    (Failure.refused error).Excused large := by
  intro cause impossible
  cases impossible

@[simp] theorem Failure.excused_overflow {large : Prop} :
    (Failure.aborted .overflow).Excused large ↔ large := by
  constructor
  · intro excused
    exact (excused .overflow rfl).2
  · intro holds cause same
    exact ⟨(Failure.aborted.inj same).symm, holds⟩

theorem Failure.admits_excused {large : Prop} : Failure.Admits (Failure.Excused large) :=
  fun error _ => excused_refused error

/-- A computation is excused for every larger reason as well. -/
theorem Checked.FailsOnly.enlarge {large larger : Prop} {run : Checked α}
    (fails : run.FailsOnly (Failure.Excused large)) (implies : large → larger) :
    run.FailsOnly (Failure.Excused larger) :=
  fails.imp fun _ excused cause same => (excused cause same).imp_right implies

end TensorCompiler
