import Mathlib.Data.List.Nodup
import Mathlib.Data.List.Pairwise
import TensorCompiler.Proofs.Schedule.Buffers
import TensorCompiler.Schedule.Conflict

namespace TensorCompiler

/-!
# The check for conflicts

The sweep forgets a buffer as soon as one that starts after its end comes by.
Since buffers are looked at by their first step, nothing is lost: what it still
remembers holds every buffer that the next one can run into.  So the sweep
answers as a plain search does that compares each buffer with all before it.
It finds nothing exactly when no two of the buffers clash, and what it finds is
the first clash in the order of the sweep.
-/

/-! ## Sorting -/

section

variable {α : Type} {less : α → α → Bool} {relation : α → α → Prop}

theorem pairwise_insertBy (trans : ∀ x y z, relation x y → relation y z → relation x z)
    (ofLess : ∀ x y, less x y = true → relation x y)
    (ofNotLess : ∀ x y, less x y = false → relation y x) (x : α) {xs : List α}
    (sorted : xs.Pairwise relation) : (insertBy less x xs).Pairwise relation := by
  induction xs with
  | nil => exact List.pairwise_singleton relation x
  | cons y rest inductionHypothesis =>
      rcases List.pairwise_cons.mp sorted with ⟨yFirst, restSorted⟩
      unfold insertBy
      split
      · next before =>
        refine List.pairwise_cons.mpr ⟨?_, inductionHypothesis restSorted⟩
        intro z member
        rcases List.mem_cons.mp ((insertBy_perm less x rest).mem_iff.mp member) with rfl | inRest
        · exact ofLess y z before
        · exact yFirst z inRest
      · next notBefore =>
        have xFirst := ofNotLess y x (Bool.eq_false_iff.mpr notBefore)
        refine List.pairwise_cons.mpr ⟨?_, sorted⟩
        intro z member
        rcases List.mem_cons.mp member with rfl | inRest
        · exact xFirst
        · exact trans x y z xFirst (yFirst z inRest)

/-- A sorted list is in the order that the comparison stands for. -/
theorem pairwise_sortBy (trans : ∀ x y z, relation x y → relation y z → relation x z)
    (ofLess : ∀ x y, less x y = true → relation x y)
    (ofNotLess : ∀ x y, less x y = false → relation y x) (xs : List α) :
    (sortBy less xs).Pairwise relation := by
  induction xs with
  | nil => exact List.Pairwise.nil
  | cons x rest inductionHypothesis =>
      exact pairwise_insertBy trans ofLess ofNotLess x inductionHypothesis

end

namespace Checked

/-- A search by a test that always answers is a search by its answers. -/
theorem findM?_eq_find? {α : Type} {test : α → Checked Bool} {holds : α → Bool} {xs : List α}
    (answers : ∀ x ∈ xs, test x = .ok (holds x)) : xs.findM? test = .ok (xs.find? holds) := by
  induction xs with
  | nil => rfl
  | cons x rest inductionHypothesis =>
      rcases List.forall_mem_cons.mp answers with ⟨answer, restAnswers⟩
      rw [List.findM?, answer, List.find?_cons]
      cases holds x with
      | true => rfl
      | false => exact inductionHypothesis restAnswers

end Checked

namespace OutletMap

/-- What holds of any two values with different keys holds along the values. -/
theorem pairwise_values {α : Type} {map : OutletMap α} {relation : α → α → Prop}
    (holds : ∀ key other value otherValue, key ≠ other → map.get? key = some value →
      map.get? other = some otherValue → relation value otherValue) :
    map.values.Pairwise relation := by
  rw [values, List.pairwise_map]
  apply map.increasing.imp_of_mem
  intro first second firstMember secondMember less
  refine holds first.1 second.1 first.2 second.2 ?_ (mem_entries.mp firstMember)
    (mem_entries.mp secondMember)
  intro same
  rw [same] at less
  exact Outlet.lt_irrefl _ less

end OutletMap

/-! ## The sweep -/

namespace Buffer

/-- A buffer corrupts one that starts later: it still lives when the other
starts, and they have a byte in common. -/
def RunsInto (first second : Buffer) : Prop :=
  first.kind = second.kind ∧ second.first ≤ first.last ∧ first.block.Meets second.block

instance (first second : Buffer) : Decidable (first.RunsInto second) :=
  inferInstanceAs (Decidable (_ ∧ _))

theorem Clashes.symm {first second : Buffer} (clashes : first.Clashes second) :
    second.Clashes first := by
  rcases clashes with ⟨sameKind, ⟨before, after⟩, address, inFirst, inSecond⟩
  exact ⟨sameKind.symm, ⟨after, before⟩, address, inSecond, inFirst⟩

/-- Of the two conditions on lifetimes, buffers by their first step need only one. -/
theorem runsInto_iff_clashes {first second : Buffer} (starts : first.first ≤ second.first)
    (ordered : second.first ≤ second.last) : first.RunsInto second ↔ first.Clashes second := by
  constructor
  · rintro ⟨sameKind, stillLives, meets⟩
    exact ⟨sameKind, ⟨Nat.le_trans starts ordered, stillLives⟩, meets⟩
  · rintro ⟨sameKind, ⟨_, stillLives⟩, meets⟩
    exact ⟨sameKind, stillLives, meets⟩

end Buffer

namespace Schedule

/-! ### Comparing all pairs -/

/-- Compare each of the next buffers with all before it, those seen earlier and
those that come first among the next. -/
def compareAll : (earlier buffers : List Buffer) → Option (Buffer × Buffer)
  | _, [] => none
  | earlier, buffer :: rest =>
    match earlier.find? fun other => other.RunsInto buffer with
    | some other => some (other, buffer)
    | none => compareAll (earlier ++ [buffer]) rest

section

variable {earlier buffers : List Buffer}

theorem compareAll_eq_none : compareAll earlier buffers = none ↔
    (∀ other ∈ earlier, ∀ buffer ∈ buffers, ¬ other.RunsInto buffer) ∧
      buffers.Pairwise fun first second => ¬ first.RunsInto second := by
  induction buffers generalizing earlier with
  | nil => simp [compareAll]
  | cons buffer rest inductionHypothesis =>
      rw [compareAll]
      cases search : earlier.find? fun other => other.RunsInto buffer with
      | some other =>
          have runsInto : other.RunsInto buffer := by simpa using List.find?_some search
          simp only [reduceCtorEq, false_iff, not_and]
          intro quiet
          exact absurd runsInto
            (quiet other (List.mem_of_find?_eq_some search) buffer List.mem_cons_self)
      | none =>
          have quiet : ∀ other ∈ earlier, ¬ other.RunsInto buffer := by
            simpa using List.find?_eq_none.mp search
          simp only [inductionHypothesis, List.forall_mem_append, List.forall_mem_singleton,
            List.forall_mem_cons, List.pairwise_cons]
          constructor
          · rintro ⟨⟨earlierQuiet, bufferQuiet⟩, restQuiet⟩
            exact ⟨fun other member => ⟨quiet other member, earlierQuiet other member⟩,
              bufferQuiet, restQuiet⟩
          · rintro ⟨earlierQuiet, bufferQuiet, restQuiet⟩
            exact ⟨⟨fun other member => (earlierQuiet other member).2, bufferQuiet⟩, restQuiet⟩

/-- What is found is the first buffer that one before it runs into, with the first
that does. -/
theorem compareAll_eq_some {first second : Buffer}
    (found : compareAll earlier buffers = some (first, second)) :
    ∃ before after, buffers = before ++ second :: after ∧ compareAll earlier before = none ∧
      (earlier ++ before).find? (fun other => other.RunsInto second) = some first := by
  induction buffers generalizing earlier with
  | nil => cases found
  | cons buffer rest inductionHypothesis =>
      rw [compareAll] at found
      cases search : earlier.find? fun other => other.RunsInto buffer with
      | some other =>
          rw [search] at found
          rcases Prod.mk.inj (Option.some.inj found) with ⟨rfl, rfl⟩
          exact ⟨[], rest, rfl, rfl, by rw [List.append_nil, search]⟩
      | none =>
          rw [search] at found
          rcases inductionHypothesis found with ⟨before, after, rfl, quiet, searched⟩
          rw [List.append_assoc] at searched
          exact ⟨buffer :: before, after, rfl, by rw [compareAll, search]; exact quiet, searched⟩

end

/-! ### What the sweep remembers -/

/-- The living buffers after one more has started. -/
def livingAfter (buffer : Buffer) (living : PerKind (List Buffer)) : PerKind (List Buffer) :=
  living.set buffer.kind
    ((living.get buffer.kind).filter (fun other => buffer.first ≤ other.last) ++ [buffer])

/-- Of the buffers seen so far, those that still live at a given step or later are
all among the living, in the order in which they were seen. -/
def Remembers (step : Nat) (earlier : List Buffer) (living : PerKind (List Buffer)) : Prop :=
  ∀ kind later, step ≤ later →
    (living.get kind).filter (fun other => later ≤ other.last) =
      earlier.filter fun other => other.kind = kind ∧ later ≤ other.last

theorem remembers_nil (step : Nat) : Remembers step [] (.tabulate fun _ => []) := by
  intro kind later _
  rw [PerKind.get_tabulate]
  rfl

/-- A buffer that is dropped has ended before anything that is still to come. -/
theorem Remembers.next {step : Nat} {earlier : List Buffer} {living : PerKind (List Buffer)}
    {buffer : Buffer} (remembers : Remembers step earlier living) (starts : step ≤ buffer.first) :
    Remembers buffer.first (earlier ++ [buffer]) (livingAfter buffer living) := by
  intro kind later reached
  have before := remembers kind later (Nat.le_trans starts reached)
  rw [livingAfter, PerKind.get_set, List.filter_append, ← before]
  by_cases same : kind = buffer.kind
  · subst same
    have kept : ((living.get buffer.kind).filter (fun other => buffer.first ≤ other.last)).filter
        (fun other => later ≤ other.last) =
          (living.get buffer.kind).filter fun other => later ≤ other.last := by
      rw [List.filter_filter]
      apply List.filter_congr
      intro other _
      simp only [Bool.and_eq_left_iff_imp, decide_eq_true_eq]
      exact Nat.le_trans reached
    rw [if_pos rfl, List.filter_append, kept]
    simp [List.filter_cons]
  · rw [if_neg same]
    simp [Ne.symm same]

/-- The sweep answers as the comparison of all pairs does. -/
theorem sweepConflicts_eq_compareAll {step : Nat} {earlier buffers : List Buffer}
    {living : PerKind (List Buffer)} (fit : ∀ buffer ∈ earlier ++ buffers, buffer.block.Fits)
    (byStart : buffers.Pairwise fun first second => first.first ≤ second.first)
    (starts : ∀ buffer ∈ buffers, step ≤ buffer.first) (remembers : Remembers step earlier living) :
    sweepConflicts buffers living = .ok (compareAll earlier buffers) := by
  induction buffers generalizing step earlier living with
  | nil => rfl
  | cons buffer rest inductionHypothesis =>
      rcases List.pairwise_cons.mp byStart with ⟨startsFirst, restByStart⟩
      rcases List.forall_mem_cons.mp starts with ⟨bufferStarts, -⟩
      rcases List.forall_mem_append.mp fit with ⟨earlierFit, restFit⟩
      have bufferFits := restFit buffer List.mem_cons_self
      have remembered := remembers buffer.kind buffer.first bufferStarts
      have tested : ∀ other ∈ earlier.filter
          (fun other => other.kind = buffer.kind ∧ buffer.first ≤ other.last),
          other.block.overlaps buffer.block = .ok (decide (other.block.Meets buffer.block)) :=
        fun other member =>
          Block.overlaps_eq_ok (earlierFit other (List.mem_filter.mp member).1) bufferFits
      have searched : (earlier.filter
          (fun other => other.kind = buffer.kind ∧ buffer.first ≤ other.last)).findM?
            (fun other => other.block.overlaps buffer.block) =
          .ok (earlier.find? fun other => other.RunsInto buffer) := by
        rw [Checked.findM?_eq_find? tested, List.find?_filter]
        congr 2
        funext other
        apply decide_eq_decide.mpr
        simp only [Buffer.RunsInto, decide_eq_true_eq, and_assoc]
      rw [sweepConflicts, compareAll, remembered, searched]
      cases earlier.find? fun other => other.RunsInto buffer with
      | some other => rfl
      | none =>
          have later := inductionHypothesis (by rwa [List.append_assoc]) restByStart startsFirst
            (remembers.next bufferStarts)
          rw [livingAfter, remembered] at later
          exact later

/-! ### What the check finds -/

section

variable {buffers : List Buffer} {first second third : Buffer}

theorem startsBefore_iff : startsBefore first second = true ↔
    first.first < second.first ∨ (first.first = second.first ∧ first.outlet < second.outlet) :=
  decide_eq_true_iff

theorem startsBefore_irrefl (buffer : Buffer) : startsBefore buffer buffer ≠ true := by
  simp [startsBefore_iff, Outlet.lt_irrefl]

theorem startsBefore_trans (low : startsBefore first second = true)
    (high : startsBefore second third = true) : startsBefore first third = true := by
  simp only [startsBefore_iff, Outlet.lt_iff] at *
  omega

theorem startsBefore_asymm (before : startsBefore first second = true) :
    startsBefore second first ≠ true :=
  fun after => startsBefore_irrefl first (startsBefore_trans before after)

theorem first_le_of_startsBefore (before : startsBefore first second = true) :
    first.first ≤ second.first := by
  have := startsBefore_iff.mp before
  omega

/-- The sweep looks at buffers by their first step. -/
theorem pairwise_first (buffers : List Buffer) :
    (sortBy startsBefore buffers).Pairwise fun first second => first.first ≤ second.first := by
  apply pairwise_sortBy
  · intro first second third
    exact Nat.le_trans
  · intro first second
    exact first_le_of_startsBefore
  · intro first second notBefore
    have := of_decide_eq_false notBefore
    omega

/-- Buffers of different outlets are put into a strict order. -/
theorem pairwise_startsBefore (distinct : (buffers.map Buffer.outlet).Nodup) :
    (sortBy startsBefore buffers).Pairwise
      fun first second => startsBefore first second = true := by
  have notAfter : (sortBy startsBefore buffers).Pairwise
      fun first second => startsBefore second first ≠ true := by
    apply pairwise_sortBy
    · intro first second third low high
      simp only [ne_eq, startsBefore_iff, Outlet.lt_iff] at *
      omega
    · intro first second
      exact startsBefore_asymm
    · intro first second notBefore
      exact Bool.eq_false_iff.mp notBefore
  have apart : (sortBy startsBefore buffers).Pairwise
      fun first second => first.outlet ≠ second.outlet :=
    List.pairwise_map.mp (((sortBy_perm startsBefore buffers).map Buffer.outlet).nodup_iff.mpr
      distinct)
  refine (notAfter.and apart).imp ?_
  rintro first second ⟨notAfter, different⟩
  rw [ne_eq, startsBefore_iff, not_or, not_and] at notAfter
  rw [startsBefore_iff]
  by_cases same : first.first = second.first
  · exact Or.inr ⟨same, Outlet.lt_of_not_lt_of_ne (notAfter.2 same.symm) different.symm⟩
  · exact Or.inl (by omega)

/-- The check is the comparison of all pairs of buffers by their first step. -/
theorem findConflict_eq (fit : ∀ buffer ∈ buffers, buffer.block.Fits) :
    findConflict buffers = .ok (compareAll [] (sortBy startsBefore buffers)) := by
  refine sweepConflicts_eq_compareAll ?_ (pairwise_first buffers) (fun _ _ => Nat.zero_le _)
    (remembers_nil 0)
  intro buffer member
  exact fit buffer ((sortBy_perm startsBefore buffers).mem_iff.mp member)

/-- The check finds nothing exactly when no two buffers clash. -/
theorem findConflict_eq_none (fit : ∀ buffer ∈ buffers, buffer.block.Fits)
    (ordered : ∀ buffer ∈ buffers, buffer.first ≤ buffer.last) :
    findConflict buffers = .ok none ↔
      buffers.Pairwise fun first second => ¬ first.Clashes second := by
  have same := sortBy_perm startsBefore buffers
  rw [findConflict_eq fit, Except.ok.injEq, compareAll_eq_none,
    and_iff_right (List.forall_mem_nil _),
    ← same.pairwise_iff (fun clashFree clashes => clashFree clashes.symm)]
  have sameTest : ∀ {first second : Buffer}, second ∈ sortBy startsBefore buffers →
      first.first ≤ second.first → (first.RunsInto second ↔ first.Clashes second) :=
    fun member starts =>
      Buffer.runsInto_iff_clashes starts (ordered _ (same.mem_iff.mp member))
  constructor
  · intro quiet
    refine (quiet.and (pairwise_first buffers)).imp_of_mem ?_
    rintro first second _ member ⟨notInto, starts⟩ clashes
    exact notInto ((sameTest member starts).mpr clashes)
  · intro quiet
    refine (quiet.and (pairwise_first buffers)).imp_of_mem ?_
    rintro first second _ member ⟨noClash, starts⟩ runsInto
    exact noClash ((sameTest member starts).mp runsInto)

/-- What holds along a list in strict order holds of any two members, one of which
comes before the other. -/
theorem forall_of_pairwise {sorted : List Buffer} {relation : Buffer → Buffer → Prop}
    (strict : sorted.Pairwise fun first second => startsBefore first second = true)
    (holds : sorted.Pairwise relation) (firstMember : first ∈ sorted)
    (secondMember : second ∈ sorted) (before : startsBefore first second = true) :
    relation first second := by
  induction sorted with
  | nil => cases firstMember
  | cons head rest inductionHypothesis =>
      rcases List.pairwise_cons.mp strict with ⟨headFirst, restStrict⟩
      rcases List.pairwise_cons.mp holds with ⟨headHolds, restHolds⟩
      rcases List.mem_cons.mp secondMember with rfl | secondLater
      · rcases List.mem_cons.mp firstMember with rfl | firstLater
        · exact absurd before (startsBefore_irrefl first)
        · exact absurd before (startsBefore_asymm (headFirst first firstLater))
      · rcases List.mem_cons.mp firstMember with rfl | firstLater
        · exact headHolds second secondLater
        · exact inductionHypothesis restStrict restHolds firstLater secondLater

/-- Two of some buffers stand in a relation.  The second is the earliest buffer that an
earlier one is related to, and the first is the earliest of those. -/
structure IsEarliestPair (buffers : List Buffer) (related : Buffer → Buffer → Prop)
    (first second : Buffer) : Prop where
  members : first ∈ buffers ∧ second ∈ buffers
  before : startsBefore first second = true
  holds : related first second
  second_earliest : ∀ other ∈ buffers, ∀ buffer ∈ buffers, startsBefore other buffer = true →
    related other buffer → buffer = second ∨ startsBefore second buffer = true
  first_earliest : ∀ other ∈ buffers, startsBefore other second = true → related other second →
    other = first ∨ startsBefore first other = true

/-- The relation matters for members only, and only if the first comes before the second. -/
theorem IsEarliestPair.congr {others : List Buffer} {related similar : Buffer → Buffer → Prop}
    (pair : IsEarliestPair buffers related first second)
    (same : ∀ buffer, buffer ∈ buffers ↔ buffer ∈ others)
    (alike : ∀ first ∈ others, ∀ second ∈ others, startsBefore first second = true →
      (related first second ↔ similar first second)) :
    IsEarliestPair others similar first second := by
  have firstMember := (same first).mp pair.members.1
  have secondMember := (same second).mp pair.members.2
  refine ⟨⟨firstMember, secondMember⟩, pair.before,
    (alike first firstMember second secondMember pair.before).mp pair.holds, ?_, ?_⟩
  · intro other member buffer bufferMember before holds
    exact pair.second_earliest other ((same other).mpr member) buffer
      ((same buffer).mpr bufferMember) before
      ((alike other member buffer bufferMember before).mpr holds)
  · intro other member before holds
    exact pair.first_earliest other ((same other).mpr member) before
      ((alike other member second secondMember before).mpr holds)

/-- In a strict order, the comparison of all pairs finds the earliest one. -/
theorem isEarliestPair_of_compareAll
    (strict : buffers.Pairwise fun first second => startsBefore first second = true)
    (found : compareAll [] buffers = some (first, second)) :
    IsEarliestPair buffers Buffer.RunsInto first second := by
  rcases compareAll_eq_some found with ⟨before, after, rfl, quiet, searched⟩
  rcases List.pairwise_append.mp strict with ⟨beforeStrict, laterStrict, across⟩
  have beforeSecond : ∀ other ∈ before, startsBefore other second = true :=
    fun other member => across other member second List.mem_cons_self
  have inBefore : ∀ {buffer other : Buffer}, buffer = second ∨ buffer ∈ before →
      other ∈ before ++ second :: after → startsBefore other buffer = true → other ∈ before := by
    intro buffer other near member earlier
    refine (List.mem_append.mp member).resolve_right fun late => ?_
    rcases near with rfl | inside
    · rcases List.mem_cons.mp late with rfl | later
      · exact startsBefore_irrefl other earlier
      · exact startsBefore_asymm ((List.pairwise_cons.mp laterStrict).1 other later) earlier
    · exact startsBefore_asymm (across buffer inside other late) earlier
  rcases List.find?_eq_some_iff_append.mp searched with
    ⟨runsInto, lower, upper, split, lowerQuiet⟩
  rw [List.nil_append] at split
  have firstMember : first ∈ before := by
    rw [split]
    exact List.mem_append_right _ List.mem_cons_self
  refine ⟨⟨List.mem_append_left _ firstMember, List.mem_append_right _ List.mem_cons_self⟩,
    beforeSecond first firstMember, of_decide_eq_true runsInto, ?_, ?_⟩
  · intro other otherMember buffer member earlier holds
    rcases List.mem_append.mp member with inside | late
    · -- Nothing before the second buffer is run into by anything earlier.
      have otherInside := inBefore (Or.inr inside) otherMember earlier
      exact absurd holds
        (forall_of_pairwise beforeStrict (compareAll_eq_none.mp quiet).2 otherInside inside earlier)
    · rcases List.mem_cons.mp late with same | later
      · exact Or.inl same
      · exact Or.inr ((List.pairwise_cons.mp laterStrict).1 buffer later)
  · intro other member earlier holds
    have inside := inBefore (Or.inl rfl) member earlier
    rw [split] at inside beforeStrict
    rcases List.mem_append.mp inside with low | high
    · have notInto := lowerQuiet other low
      simp [holds] at notInto
    · rcases List.mem_cons.mp high with same | above
      · exact Or.inl same
      · have upperStrict := (List.pairwise_append.mp beforeStrict).2.1
        exact Or.inr ((List.pairwise_cons.mp upperStrict).1 other above)

/-- The check answers for any buffers of different outlets.  It finds nothing exactly if no two
of them conflict; otherwise it finds the earliest pair that does. -/
theorem findConflict_agrees (distinct : (buffers.map Buffer.outlet).Nodup)
    (ordered : ∀ buffer ∈ buffers, buffer.first ≤ buffer.last)
    (fit : ∀ buffer ∈ buffers, buffer.block.Fits) :
    ∃ found, findConflict buffers = .ok found ∧
      (found = none ↔ ∀ first ∈ buffers, ∀ second ∈ buffers, first ≠ second →
        first.conflicts second = .ok false) ∧
      ∀ first second, found = some (first, second) →
        IsEarliestPair buffers (fun first second => first.conflicts second = .ok true)
          first second := by
  have tested : ∀ first ∈ buffers, ∀ second ∈ buffers, ∀ answer,
      first.conflicts second = .ok answer ↔ decide (first.Clashes second) = answer := by
    intro first firstMember second secondMember answer
    rw [Buffer.conflicts_eq_ok (fit first firstMember) (fit second secondMember),
      Except.ok.injEq]
  have answered := findConflict_eq fit
  refine ⟨_, answered, ?_, ?_⟩
  · have quiet := findConflict_eq_none fit ordered
    rw [answered, Except.ok.injEq] at quiet
    rw [quiet]
    have symmetric : Std.Symm fun first second : Buffer => ¬ first.Clashes second :=
      ⟨fun _ _ clashFree clash => clashFree clash.symm⟩
    constructor
    · intro apart first firstMember second secondMember different
      rw [tested first firstMember second secondMember]
      exact decide_eq_false (apart.forall firstMember secondMember different)
    · intro apart
      refine (List.Nodup.of_map _ distinct).pairwise_of_forall_ne ?_
      intro first firstMember second secondMember different
      have answer := apart first firstMember second secondMember different
      rw [tested first firstMember second secondMember] at answer
      exact of_decide_eq_false answer
  · intro first second found
    have same := sortBy_perm startsBefore buffers
    refine (isEarliestPair_of_compareAll (pairwise_startsBefore distinct) found).congr
      (fun buffer => same.mem_iff) ?_
    intro first firstMember second secondMember before
    rw [tested first firstMember second secondMember, decide_eq_true_iff]
    exact Buffer.runsInto_iff_clashes (first_le_of_startsBefore before)
      (ordered second secondMember)

end

/-- A memory whose first value has ended when the third comes and lies over the second, as
the fourth does over both, and a value of another memory. -/
def crossing : List Buffer :=
  [⟨⟨3, 0⟩, .main, ⟨4, 8⟩, 2, 4, false⟩, ⟨⟨0, 0⟩, .main, ⟨0, 8⟩, 0, 1, false⟩,
    ⟨⟨4, 0⟩, .main, ⟨8, 2⟩, 3, 5, false⟩, ⟨⟨1, 0⟩, .main, ⟨8, 8⟩, 1, 3, false⟩,
    ⟨⟨2, 0⟩, .accelerator, ⟨0, 16⟩, 0, 5, true⟩]

theorem findConflict_crossing :
    findConflict crossing = .ok (some (⟨⟨1, 0⟩, .main, ⟨8, 8⟩, 1, 3, false⟩,
      ⟨⟨3, 0⟩, .main, ⟨4, 8⟩, 2, 4, false⟩)) ∧
    IsEarliestPair crossing (fun first second => first.conflicts second = .ok true)
      ⟨⟨1, 0⟩, .main, ⟨8, 8⟩, 1, 3, false⟩ ⟨⟨3, 0⟩, .main, ⟨4, 8⟩, 2, 4, false⟩ := by
  have computed : findConflict crossing = .ok (some (⟨⟨1, 0⟩, .main, ⟨8, 8⟩, 1, 3, false⟩,
      ⟨⟨3, 0⟩, .main, ⟨4, 8⟩, 2, 4, false⟩)) := rfl
  rcases @findConflict_agrees crossing (by decide) (by decide) (by decide) with
    ⟨found, answered, -, earliest⟩
  exact ⟨computed, earliest _ _ (Except.ok.inj (answered.symm.trans computed))⟩

end Schedule
end TensorCompiler
