import Mathlib.Data.List.Forall2
import TensorCompiler.Failure

namespace TensorCompiler

/-!
# Computations and how they end

A run of several steps succeeds exactly if each of its steps does.  The facts
here take a successful run apart, once for computations without state and once
for those that carry one, so that later arguments never open the definition of
either monad.  A run that carries a state leaves one behind when it fails as well, and
the last part is about both ends of it.
-/

variable {α β σ : Type}

namespace Checked

@[simp] theorem bind_eq_ok {first : Checked α} {next : α → Checked β} {result : β} :
    (first >>= next) = .ok result ↔ ∃ value, first = .ok value ∧ next value = .ok result := by
  cases first with
  | ok value => simp [bind, Except.bind]
  | error failure => simp [bind, Except.bind]

/-- A computation fails with its first step or after it. -/
theorem bind_eq_error {first : Checked α} {next : α → Checked β} {failure : Failure} :
    (first >>= next) = .error failure ↔
      first = .error failure ∨ ∃ value, first = .ok value ∧ next value = .error failure := by
  cases first with
  | ok value => simp [bind, Except.bind]
  | error cause => simp [bind, Except.bind]

@[simp] theorem pure_eq_ok {value result : α} :
    (pure value : Checked α) = .ok result ↔ value = result := by
  simp [pure, Except.pure]

@[simp] theorem refuse_ne_ok {error : Error} {result : α} :
    (refuse error : Checked α) ≠ .ok result := by
  intro impossible
  cases impossible

@[simp] theorem abort_ne_ok {cause : Abort} {result : α} :
    (abort cause : Checked α) ≠ .ok result := by
  intro impossible
  cases impossible

theorem ok_bind (value : α) (next : α → Checked β) : (Except.ok value >>= next) = next value :=
  pure_bind value next

theorem bind_congr {first : Checked α} {next other : α → Checked β}
    (same : ∀ value, first = .ok value → next value = other value) :
    (first >>= next) = (first >>= other) := by
  cases first with
  | ok value => exact same value rfl
  | error failure => rfl

/-- A check that is made before the rest of a computation. -/
theorem guard_eq_ok {condition : Prop} [Decidable condition] {error : Error}
    {next : Unit → Checked α} {result : α} :
    (if condition then refuse error >>= next else next ()) = .ok result ↔
      ¬ condition ∧ next () = .ok result := by
  split
  · next refused => simp [refused]
  · next accepted => simp [accepted]

theorem guard_congr {condition : Prop} [Decidable condition] {error : Error}
    {next other : Unit → Checked α} (same : ¬ condition → next () = other ()) :
    (if condition then refuse error >>= next else next ()) =
      (if condition then refuse error >>= other else other ()) := by
  split
  · rfl
  · next accepted => exact same accepted

/-- A map succeeds exactly if it does at every item. -/
theorem mapM_eq_ok {run : α → Checked β} {items : List α} {results : List β} :
    items.mapM run = .ok results ↔
      List.Forall₂ (fun item result => run item = .ok result) items results := by
  induction items generalizing results with
  | nil => rw [List.mapM_nil, pure_eq_ok, List.forall₂_nil_left_iff, eq_comm]
  | cons item rest inductionHypothesis =>
      simp only [List.mapM_cons, bind_eq_ok, pure_eq_ok, inductionHypothesis,
        List.forall₂_cons_left_iff]
      constructor
      · rintro ⟨first, found, others, later, rfl⟩
        exact ⟨first, others, found, later, rfl⟩
      · rintro ⟨first, others, found, later, rfl⟩
        exact ⟨first, found, others, later, rfl⟩

theorem exists_mapM_eq_ok {run : α → Checked β} {items : List α}
    (each : ∀ item ∈ items, ∃ result, run item = .ok result) :
    ∃ results, items.mapM run = .ok results := by
  induction items with
  | nil => exact ⟨[], rfl⟩
  | cons item rest inductionHypothesis =>
      rcases each item List.mem_cons_self with ⟨first, found⟩
      rcases inductionHypothesis
        (fun other member => each other (List.mem_cons_of_mem item member)) with ⟨others, later⟩
      exact ⟨first :: others, mapM_eq_ok.mpr (.cons found (mapM_eq_ok.mp later))⟩

theorem exists_of_mem_mapM {run : α → Checked β} {items : List α} {results : List β} {result : β}
    (done : items.mapM run = .ok results) (member : result ∈ results) :
    ∃ item ∈ items, run item = .ok result := by
  rcases List.forall₂_iff_get.mp (mapM_eq_ok.mp done) with ⟨lengths, pairs⟩
  rcases List.getElem_of_mem member with ⟨index, inside, rfl⟩
  have insideItems : index < items.length := lengths ▸ inside
  exact ⟨_, List.getElem_mem insideItems, pairs index insideItems inside⟩

theorem exists_mem_mapM {run : α → Checked β} {items : List α} {results : List β} {item : α}
    (done : items.mapM run = .ok results) (member : item ∈ items) :
    ∃ result ∈ results, run item = .ok result := by
  rcases List.forall₂_iff_get.mp (mapM_eq_ok.mp done) with ⟨lengths, pairs⟩
  rcases List.getElem_of_mem member with ⟨index, inside, rfl⟩
  have insideResults : index < results.length := lengths ▸ inside
  exact ⟨_, List.getElem_mem insideResults, pairs index inside insideResults⟩

end Checked

namespace Stateful

variable {state after : σ}

@[simp] theorem bind_eq_ok {first : EStateM Failure σ α} {next : α → EStateM Failure σ β}
    {result : β} :
    (first >>= next) state = .ok result after ↔
      ∃ value between, first state = .ok value between ∧ next value between = .ok result after := by
  change EStateM.bind first next state = _ ↔ _
  unfold EStateM.bind
  cases first state with
  | ok value between =>
      constructor
      · intro succeeds
        exact ⟨value, between, rfl, succeeds⟩
      · rintro ⟨_, _, same, succeeds⟩
        cases same
        exact succeeds
  | error failure between => simp

/-- A run fails with its first step or after it. -/
theorem bind_eq_error {first : EStateM Failure σ α} {next : α → EStateM Failure σ β}
    {failure : Failure} :
    (first >>= next) state = .error failure after ↔
      first state = .error failure after ∨ ∃ value between,
        first state = .ok value between ∧ next value between = .error failure after := by
  change EStateM.bind first next state = _ ↔ _
  unfold EStateM.bind
  cases first state with
  | ok value between => simp
  | error cause between => simp

/-- A step that succeeds leaves the rest of the run. -/
theorem bind_of_ok {first : EStateM Failure σ α} {next : α → EStateM Failure σ β} {value : α}
    (succeeds : first state = .ok value after) : (first >>= next) state = next value after := by
  change EStateM.bind first next state = _
  rw [EStateM.bind, succeeds]

theorem bind_congr {first : EStateM Failure σ α} {next other : α → EStateM Failure σ β}
    (same : ∀ value between, first state = .ok value between →
      next value between = other value between) :
    (first >>= next) state = (first >>= other) state := by
  cases ended : first state with
  | ok value between =>
      rw [bind_of_ok ended, bind_of_ok ended]
      exact same value between ended
  | error failure between =>
      rw [bind_eq_error.mpr (Or.inl ended), bind_eq_error.mpr (Or.inl ended)]

theorem map_congr {run other : EStateM Failure σ α} {change : α → β}
    (same : run state = other state) : (change <$> run) state = (change <$> other) state := by
  change EStateM.map change run state = EStateM.map change other state
  unfold EStateM.map
  rw [same]

@[simp] theorem pure_eq_ok {value result : α} :
    (pure value : EStateM Failure σ α) state = .ok result after ↔
      value = result ∧ state = after := by
  change EStateM.Result.ok value state = _ ↔ _
  simp

@[simp] theorem map_eq_ok {run : EStateM Failure σ α} {change : α → β} {result : β} :
    (change <$> run) state = .ok result after ↔
      ∃ value, run state = .ok value after ∧ change value = result := by
  change EStateM.map change run state = _ ↔ _
  unfold EStateM.map
  cases run state with
  | ok value between =>
      constructor
      · intro succeeds
        rcases EStateM.Result.ok.inj succeeds with ⟨rfl, rfl⟩
        exact ⟨value, rfl, rfl⟩
      · rintro ⟨_, same, rfl⟩
        cases same
        rfl
  | error failure between => simp

@[simp] theorem refuse_ne_ok {error : Error} {result : α} :
    (refuse error : EStateM Failure σ α) state ≠ .ok result after := by
  intro impossible
  cases impossible

@[simp] theorem abort_ne_ok {cause : Abort} {result : α} :
    (abort cause : EStateM Failure σ α) state ≠ .ok result after := by
  intro impossible
  cases impossible

@[simp] theorem get_eq_ok {result : σ} :
    (get : EStateM Failure σ σ) state = .ok result after ↔ state = result ∧ state = after := by
  change EStateM.Result.ok state state = _ ↔ _
  simp

@[simp] theorem set_eq_ok {value : σ} {result : PUnit} :
    (set value : EStateM Failure σ PUnit) state = .ok result after ↔ value = after := by
  change EStateM.Result.ok PUnit.unit value = _ ↔ _
  simp

@[simp] theorem modify_eq_ok {change : σ → σ} {result : PUnit} :
    (modify change : EStateM Failure σ PUnit) state = .ok result after ↔ change state = after := by
  change EStateM.Result.ok PUnit.unit (change state) = _ ↔ _
  simp

/-- A computation without state succeeds in a state exactly if it succeeds,
and it leaves the state alone. -/
@[simp] theorem lift_eq_ok {run : Checked α} {result : α} :
    (liftM run : EStateM Failure σ α) state = .ok result after ↔
      run = .ok result ∧ state = after := by
  cases run with
  | ok value =>
      change EStateM.Result.ok value state = _ ↔ _
      simp
  | error failure =>
      change EStateM.Result.error failure state = _ ↔ _
      simp

theorem bind_of_lift {run : Checked α} {next : α → EStateM Failure σ β} {value : α}
    (succeeds : run = .ok value) :
    ((liftM run : EStateM Failure σ α) >>= next) state = next value state :=
  bind_of_ok (lift_eq_ok.mpr ⟨succeeds, rfl⟩)

theorem bind_lift_map (run : Checked α) (change : α → α) (next : α → EStateM Failure σ β) :
    ((liftM (run.map change) : EStateM Failure σ α) >>= next) =
      ((liftM run : EStateM Failure σ α) >>= fun value => next (change value)) := by
  cases run with
  | error failure => rfl
  | ok value => rfl

theorem bind_get {next : σ → EStateM Failure σ β} : (get >>= next) state = next state state :=
  rfl

@[simp] theorem forM_nil_eq_ok {body : α → EStateM Failure σ PUnit} {result : PUnit} :
    ([] : List α).forM body state = .ok result after ↔ state = after := by
  change EStateM.Result.ok PUnit.unit state = _ ↔ _
  simp

/-- A loop runs its body on the first item and then on the others. -/
@[simp] theorem forM_cons_eq_ok {body : α → EStateM Failure σ PUnit} {item : α}
    {items : List α} {result : PUnit} :
    (item :: items).forM body state = .ok result after ↔
      ∃ between, body item state = .ok () between ∧
        items.forM body between = .ok result after := by
  change (body item >>= fun _ => items.forM body) state = _ ↔ _
  rw [bind_eq_ok]
  constructor
  · rintro ⟨_, between, first, rest⟩
    exact ⟨between, first, rest⟩
  · rintro ⟨between, first, rest⟩
    exact ⟨_, between, first, rest⟩

theorem forM_congr {body other : α → EStateM Failure σ PUnit} {items : List α}
    (same : ∀ item ∈ items, body item = other item) : items.forM body = items.forM other := by
  induction items with
  | nil => rfl
  | cons item rest inductionHypothesis =>
      rcases List.forall_mem_cons.mp same with ⟨here, others⟩
      rw [List.forM, List.forM, here, inductionHypothesis others]

/-- What the body of a loop keeps, the loop keeps. -/
theorem forM_keeps {body : α → EStateM Failure σ PUnit} {items : List α} {result : PUnit}
    {holds : σ → Prop}
    (each : ∀ item state after, holds state → body item state = .ok () after → holds after)
    (start : holds state) (done : items.forM body state = .ok result after) : holds after := by
  induction items generalizing state with
  | nil => exact forM_nil_eq_ok.mp done ▸ start
  | cons item rest inductionHypothesis =>
      rcases forM_cons_eq_ok.mp done with ⟨between, first, later⟩
      exact inductionHypothesis (each item state between start first) later

/-! ## How a run ends

A run that fails keeps what it has changed so far.  What is to hold of the state
afterwards is therefore asked of both ends of a run: of the value and the state
if it succeeds, and of the state alone if it fails.
-/

/-- A run from a state succeeds with a value and a state as described, or fails in
a state as described. -/
def Ends (run : EStateM Failure σ α) (state : σ) (succeeded : α → σ → Prop)
    (failed : σ → Prop) : Prop :=
  match run state with
  | .ok value after => succeeded value after
  | .error _ after => failed after

variable {run : EStateM Failure σ α} {succeeded expected : α → σ → Prop}
  {failed allowed : σ → Prop}

theorem ends_of_ok {value : α} (done : run state = .ok value after) :
    Ends run state succeeded failed ↔ succeeded value after := by
  rw [Ends, done]

theorem ends_of_error {failure : Failure} (stopped : run state = .error failure after) :
    Ends run state succeeded failed ↔ failed after := by
  rw [Ends, stopped]

theorem Ends.of_ok {value : α} (ends : Ends run state succeeded failed)
    (done : run state = .ok value after) : succeeded value after :=
  (ends_of_ok done).mp ends

theorem Ends.of_error {failure : Failure} (ends : Ends run state succeeded failed)
    (stopped : run state = .error failure after) : failed after :=
  (ends_of_error stopped).mp ends

theorem Ends.imp (ends : Ends run state succeeded failed)
    (success : ∀ value after, succeeded value after → expected value after)
    (failure : ∀ after, failed after → allowed after) : Ends run state expected allowed := by
  unfold Ends at *
  split at ends
  · exact success _ _ ends
  · exact failure _ ends

@[simp] theorem ends_bind {first : EStateM Failure σ β} {next : β → EStateM Failure σ α} :
    Ends (first >>= next) state succeeded failed ↔
      Ends first state (fun value between => Ends (next value) between succeeded failed)
        failed := by
  cases ended : first state with
  | ok value between =>
      rw [ends_of_ok ended, Ends, Ends, bind_of_ok ended]
  | error failure between =>
      rw [ends_of_error ended, ends_of_error (bind_eq_error.mpr (Or.inl ended))]

@[simp] theorem ends_pure {value : α} :
    Ends (pure value) state succeeded failed ↔ succeeded value state :=
  Iff.rfl

@[simp] theorem ends_map {change : β → α} {run : EStateM Failure σ β} :
    Ends (change <$> run) state succeeded failed ↔
      Ends run state (fun value => succeeded (change value)) failed := by
  rw [map_eq_pure_bind, ends_bind]
  rfl

@[simp] theorem ends_get {succeeded : σ → σ → Prop} :
    Ends get state succeeded failed ↔ succeeded state state :=
  Iff.rfl

@[simp] theorem ends_modify {change : σ → σ} {succeeded : PUnit → σ → Prop} :
    Ends (modify change) state succeeded failed ↔ succeeded ⟨⟩ (change state) :=
  Iff.rfl

/-- A computation without state ends where it starts. -/
theorem ends_lift {run : Checked α} (success : ∀ value, run = .ok value → succeeded value state)
    (failure : failed state) : Ends (liftM run : EStateM Failure σ α) state succeeded failed := by
  cases run with
  | ok value => exact success value rfl
  | error cause => exact failure

/-- The state after a run, whether it succeeds or fails. -/
def final (run : EStateM Failure σ α) (state : σ) : σ :=
  match run state with
  | .ok _ after => after
  | .error _ after => after

/-- What a run gives, if it succeeds. -/
def value? (run : EStateM Failure σ α) (state : σ) : Option α :=
  match run state with
  | .ok value _ => some value
  | .error _ _ => none

theorem value?_eq_some {value : α} :
    value? run state = some value ↔ run state = .ok value (final run state) := by
  unfold value? final
  cases run state with
  | ok given after => simp
  | error cause after => simp

/-- Why a run fails, if it does. -/
def failure? (run : EStateM Failure σ α) (state : σ) : Option Failure :=
  match run state with
  | .ok _ _ => none
  | .error failure _ => some failure

theorem failure?_eq_some {failure : Failure} :
    failure? run state = some failure ↔ run state = .error failure (final run state) := by
  unfold failure? final
  cases run state with
  | ok value after => simp
  | error cause after => simp

theorem failure?_eq_none :
    failure? run state = none ↔ ∃ value after, run state = .ok value after := by
  unfold failure?
  cases run state with
  | ok value after => simp
  | error cause after => simp

theorem failure?_of_error {failure : Failure} (stopped : run state = .error failure after) :
    failure? run state = some failure := by
  rw [failure?, stopped]

/-- A run fails with its first step or after it. -/
theorem failure?_bind {first : EStateM Failure σ β} {next : β → EStateM Failure σ α}
    {failure : Failure} :
    failure? (first >>= next) state = some failure ↔ failure? first state = some failure ∨
      ∃ value between, first state = .ok value between ∧
        failure? (next value) between = some failure := by
  cases ended : first state with
  | ok value between => simp [failure?, bind_of_ok ended, ended]
  | error cause between => simp [failure?, bind_eq_error.mpr (Or.inl ended), ended]

/-- A loop fails at the first item that its body fails on. -/
theorem failure?_forM {body : α → EStateM Failure σ PUnit} {items : List α} {failure : Failure} :
    failure? (items.forM body) state = some failure ↔ ∃ before item later between,
      items = before ++ item :: later ∧ before.forM body state = .ok () between ∧
        failure? (body item) between = some failure := by
  induction items generalizing state with
  | nil => simp [failure?, pure, EStateM.pure]
  | cons head rest inductionHypothesis =>
      change failure? (body head >>= fun _ => rest.forM body) state = _ ↔ _
      rw [failure?_bind]
      constructor
      · rintro (fails | ⟨_, between, first, fails⟩)
        · exact ⟨[], head, rest, state, rfl, rfl, fails⟩
        · rcases inductionHypothesis.mp fails with ⟨before, item, later, last, rfl, others, there⟩
          exact ⟨head :: before, item, later, last, rfl,
            forM_cons_eq_ok.mpr ⟨between, first, others⟩, there⟩
      · rintro ⟨before, item, later, last, split, others, there⟩
        cases before with
        | nil =>
            rcases List.cons.inj split with ⟨rfl, rfl⟩
            exact Or.inl (forM_nil_eq_ok.mp others ▸ there)
        | cons first earlier =>
            rcases List.cons.inj split with ⟨rfl, rfl⟩
            rcases forM_cons_eq_ok.mp others with ⟨between, here, before⟩
            exact Or.inr ⟨(), between, here,
              inductionHypothesis.mpr ⟨earlier, item, later, last, rfl, before, there⟩⟩

theorem Ends.final {holds : σ → Prop} (ends : Ends run state (fun _ => holds) holds) :
    holds (final run state) := by
  unfold Stateful.final
  unfold Ends at ends
  split at ends
  · exact ends
  · exact ends

end Stateful

end TensorCompiler
