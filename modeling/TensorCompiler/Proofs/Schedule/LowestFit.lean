import Mathlib.Algebra.GroupWithZero.Nat
import Mathlib.Data.List.Induction
import Mathlib.Data.List.Sort
import Mathlib.Order.Bounds.Basic
import TensorCompiler.Proofs.Schedule.Conflicts
import TensorCompiler.Schedule.Packing

namespace TensorCompiler

/-!
# Placing buffers at the lowest fit

Buffers that are placed anew come one after the other.  Each goes to the lowest offset at which
it meets none of those that are placed already and alive with it.  The search for that offset
walks up over their spans by increasing start.  It leaves an offset behind only if a span is in
the way there, and a span without bytes never is, since buffers without bytes all lie at the
start.

So in whatever order the buffers come, no two that live together share a byte.  The check that
packing makes of every placement therefore never turns one down.

Placing can fail only if an address does not fit into a word.  A buffer is placed at the start
or right after one that is placed already, so none of them ever ends above the sum of the
sizes; if these add up to a word, placing comes to an end.
-/

namespace Buffer

/-- What is left of a buffer when its offset is forgotten. -/
def unplaced (buffer : Buffer) : Buffer :=
  { buffer with block := ⟨0, buffer.block.size⟩ }

theorem unplaced_eq_iff {first second : Buffer} :
    first.unplaced = second.unplaced ↔
      first.outlet = second.outlet ∧ first.kind = second.kind ∧
        first.block.size = second.block.size ∧ first.first = second.first ∧
        first.last = second.last ∧ first.pinned = second.pinned := by
  simp [unplaced]

end Buffer

namespace Schedule

/-! ## The lowest gap -/

/-- The search ends at the lowest offset, from the given one on, at which the bytes lie below
or above each of the spans. -/
theorem lowestGap_isLeast {size offset gap : Nat} {blocked : List Span}
    (sorted : blocked.Pairwise fun first second => first.start ≤ second.start)
    (found : lowestGap size offset blocked = .ok gap) :
    IsLeast {place | offset ≤ place ∧
      ∀ span ∈ blocked, place + size ≤ span.start ∨ span.stop ≤ place} gap := by
  induction blocked generalizing offset with
  | nil =>
      rw [lowestGap, Checked.pure_eq_ok] at found
      subst found
      exact ⟨⟨Nat.le_refl _, List.forall_mem_nil _⟩, fun place higher => higher.1⟩
  | cons span rest inductionHypothesis =>
      rcases List.pairwise_cons.mp sorted with ⟨spanFirst, restSorted⟩
      simp only [lowestGap, Checked.bind_eq_ok, Word.add_eq_ok] at found
      rcases found with ⟨_, ⟨rfl, _⟩, found⟩
      split at found
      · next below =>
        rw [Checked.pure_eq_ok] at found
        subst found
        refine ⟨⟨Nat.le_refl _, ?_⟩, fun place higher => higher.1⟩
        intro other member
        rcases List.mem_cons.mp member with rfl | later
        · exact Or.inl below
        · exact Or.inl (Nat.le_trans below (spanFirst other later))
      · next inTheWay =>
        rcases inductionHypothesis restSorted found with ⟨⟨above, clear⟩, least⟩
        constructor
        · refine ⟨Nat.le_trans (Nat.le_max_left _ _) above, List.forall_mem_cons.mpr ⟨?_, clear⟩⟩
          exact Or.inr (Nat.le_trans (Nat.le_max_right _ _) above)
        · rintro place ⟨higher, placeClear⟩
          rcases List.forall_mem_cons.mp placeClear with ⟨spanClear, restClear⟩
          -- The span was in the way at the lower offset, so it is not above a higher one.
          exact least ⟨by omega, restClear⟩

/-- No gap is found above a bound on the offset and on the spans. -/
theorem exists_lowestGap {size offset bound : Nat} {blocked : List Span} (low : offset ≤ bound)
    (stops : ∀ span ∈ blocked, span.stop ≤ bound) (room : bound + size ≤ Word.largest) :
    ∃ gap, lowestGap size offset blocked = .ok gap ∧ gap ≤ bound := by
  induction blocked generalizing offset with
  | nil => exact ⟨offset, rfl, low⟩
  | cons span rest inductionHypothesis =>
      rcases List.forall_mem_cons.mp stops with ⟨spanStops, restStops⟩
      have added : Word.add offset size = .ok (offset + size) :=
        Word.add_eq_ok.mpr ⟨rfl, by omega⟩
      simp only [lowestGap, Checked.bind_eq_ok, added]
      by_cases fits : offset + size ≤ span.start
      · exact ⟨offset, ⟨_, rfl, by rw [if_pos fits]; rfl⟩, low⟩
      · rcases inductionHypothesis (Nat.max_le.mpr ⟨low, spanStops⟩) restStops with
          ⟨gap, found, below⟩
        exact ⟨gap, ⟨_, rfl, by rw [if_neg fits]; exact found⟩, below⟩

theorem pairwise_start (blocked : List Span) :
    (sortBy spanBefore blocked).Pairwise fun first second => first.start ≤ second.start := by
  apply pairwise_sortBy
  · intro first second third
    exact Nat.le_trans
  · intro first second before
    have := of_decide_eq_true before
    omega
  · intro first second notBefore
    have := of_decide_eq_false notBefore
    omega

/-! ## Placing one buffer -/

/-- The blocked spans are those of the placed buffers that live together with the given one. -/
theorem mem_blockedSpans {placed : List Candidate} {buffer : Buffer} {blocked : List Span}
    (found : blockedSpans placed buffer = .ok blocked) {span : Span} :
    span ∈ blocked ↔ ∃ other ∈ placed, other.1.lifetimesMeet buffer = true ∧
      span = ⟨other.1.block.offset, other.1.block.offset + other.1.block.size⟩ := by
  have computed : ∀ {other : Candidate} {span : Span},
      (do return ⟨other.1.block.offset, ← other.1.block.stop⟩) = (.ok span : Checked Span) →
        span = ⟨other.1.block.offset, other.1.block.offset + other.1.block.size⟩ := by
    intro other span done
    simp only [Checked.bind_eq_ok, Checked.pure_eq_ok, Block.stop, Word.add_eq_ok] at done
    rcases done with ⟨_, ⟨rfl, _⟩, rfl⟩
    rfl
  constructor
  · intro member
    rcases Checked.exists_of_mem_mapM found member with ⟨other, listed, done⟩
    rcases List.mem_filter.mp listed with ⟨isPlaced, together⟩
    exact ⟨other, isPlaced, together, computed done⟩
  · rintro ⟨other, isPlaced, together, rfl⟩
    rcases Checked.exists_mem_mapM found (List.mem_filter.mpr ⟨isPlaced, together⟩) with
      ⟨span, member, done⟩
    exact computed done ▸ member

theorem exists_blockedSpans {placed : List Candidate} {bound : Nat} (buffer : Buffer)
    (below : ∀ candidate ∈ placed, candidate.1.block.offset + candidate.1.block.size ≤ bound)
    (room : bound ≤ Word.largest) :
    ∃ blocked, blockedSpans placed buffer = .ok blocked ∧ ∀ span ∈ blocked, span.stop ≤ bound := by
  have each : ∀ candidate ∈ placed.filter (fun other => other.1.lifetimesMeet buffer),
      ∃ span : Span, (do return ⟨candidate.1.block.offset, ← candidate.1.block.stop⟩) =
        (.ok span : Checked Span) := by
    intro candidate member
    rw [Block.stop_eq_ok (Nat.le_trans (below candidate (List.mem_filter.mp member).1) room)]
    exact ⟨_, rfl⟩
  rcases Checked.exists_mapM_eq_ok each with ⟨blocked, found⟩
  refine ⟨blocked, found, ?_⟩
  intro span member
  rcases (mem_blockedSpans found).mp member with ⟨candidate, isPlaced, _, rfl⟩
  exact below candidate isPlaced

/-- A buffer lies at the lowest offset at which it shares no byte with those earlier ones whose
lifetimes meet its own. -/
def LowestAfter (earlier : List Candidate) (buffer : Buffer) : Prop :=
  IsLeast {offset | ∀ other ∈ earlier, other.1.lifetimesMeet buffer = true →
    ¬ other.1.block.Meets ⟨offset, buffer.block.size⟩} buffer.block.offset

/-- A buffer without bytes lies at the start. -/
theorem LowestAfter.offset_eq_zero {earlier : List Candidate} {buffer : Buffer}
    (lowest : LowestAfter earlier buffer) (empty : buffer.block.size = 0) :
    buffer.block.offset = 0 := by
  refine Nat.le_zero.mp (lowest.2 ?_)
  intro other _ _ meets
  exact (Block.meets_iff.mp meets).2.1 empty

/-- The offset that is found for a buffer is the lowest one. -/
theorem lowestAfter_of_lowestGap {placed : List Candidate} {buffer : Buffer} {blocked : List Span}
    {gap : Nat} (emptyLow : ∀ other ∈ placed, other.1.block.size = 0 → other.1.block.offset = 0)
    (found : blockedSpans placed buffer = .ok blocked)
    (gapFound : lowestGap buffer.block.size 0 (sortBy spanBefore blocked) = .ok gap) :
    LowestAfter placed { buffer with block := ⟨gap, buffer.block.size⟩ } := by
  have isBlocked : ∀ {span : Span}, span ∈ sortBy spanBefore blocked ↔ span ∈ blocked :=
    (sortBy_perm spanBefore blocked).mem_iff
  rcases lowestGap_isLeast (pairwise_start blocked) gapFound with ⟨⟨_, clear⟩, least⟩
  constructor
  · intro other isPlaced together meets
    rcases Block.meets_iff.mp meets with ⟨_, _, low, high⟩
    have beside := clear _
      (isBlocked.mpr ((mem_blockedSpans found).mpr ⟨other, isPlaced, together, rfl⟩))
    simp only at low high beside
    omega
  · intro offset apart
    simp only at apart ⊢
    by_cases empty : buffer.block.size = 0
    · have start : gap ≤ 0 := by
        refine least ⟨Nat.le_refl _, fun span _ => Or.inl ?_⟩
        rw [empty]
        exact Nat.zero_le _
      omega
    · refine least ⟨Nat.zero_le _, ?_⟩
      intro span member
      rcases (mem_blockedSpans found).mp (isBlocked.mp member) with
        ⟨other, isPlaced, together, rfl⟩
      have notMeets := apart other isPlaced together
      rw [Block.meets_iff] at notMeets
      have atStart := emptyLow other isPlaced
      simp only at notMeets ⊢
      omega

/-! ## Placing buffers in an order -/

/-- Every buffer lies at the lowest offset that those placed before it leave. -/
def Lowest (placed : List Candidate) : Prop :=
  ∀ earlier candidate later, placed = earlier ++ candidate :: later →
    LowestAfter earlier candidate.1

/-- The end of the highest buffer, or zero if there is none. -/
def highest (placed : List Candidate) : Nat :=
  (placed.map fun candidate => candidate.1.block.offset + candidate.1.block.size).foldl max 0

section

variable {placed order : List Candidate} {candidate : Candidate} {high : Nat}

theorem lowest_nil : Lowest [] := by
  rintro (_ | ⟨_, _⟩) candidate later split
  · cases split
  · cases split

theorem Lowest.concat (lowest : Lowest placed) (next : LowestAfter placed candidate.1) :
    Lowest (placed ++ [candidate]) := by
  intro earlier other later split
  rcases List.eq_nil_or_concat later with rfl | ⟨front, last, rfl⟩
  · rcases List.append_inj' split rfl with ⟨rfl, same⟩
    rcases List.cons.inj same with ⟨rfl, -⟩
    exact next
  · rw [List.concat_eq_append, ← List.cons_append, ← List.append_assoc] at split
    exact lowest earlier other front (List.append_inj' split rfl).1

theorem Lowest.emptyLow (lowest : Lowest placed) :
    ∀ other ∈ placed, other.1.block.size = 0 → other.1.block.offset = 0 := by
  intro other member empty
  rcases List.append_of_mem member with ⟨earlier, later, split⟩
  exact (lowest earlier other later split).offset_eq_zero empty

/-- Buffers at their lowest offsets share no byte if they live together. -/
theorem Lowest.pairwise (lowest : Lowest placed) : placed.Pairwise fun first second =>
    first.1.lifetimesMeet second.1 = true → ¬ first.1.block.Meets second.1.block := by
  induction placed using List.reverseRecOn with
  | nil => exact List.Pairwise.nil
  | append_singleton front last inductionHypothesis =>
      have frontLowest : Lowest front := by
        intro earlier candidate later split
        refine lowest earlier candidate (later ++ [last]) ?_
        rw [split, List.append_assoc, List.cons_append]
      refine List.pairwise_append.mpr ⟨inductionHypothesis frontLowest,
        List.pairwise_singleton _ _, ?_⟩
      intro other member next isLast
      rw [List.mem_singleton.mp isLast]
      exact (lowest front last [] rfl).1 other member

theorem highest_concat :
    highest (placed ++ [candidate]) =
      max (highest placed) (candidate.1.block.offset + candidate.1.block.size) := by
  rw [highest, List.map_append, List.foldl_append]
  rfl

theorem le_highest (member : candidate ∈ placed) :
    candidate.1.block.offset + candidate.1.block.size ≤ highest placed := by
  induction placed using List.reverseRecOn with
  | nil => cases member
  | append_singleton front last inductionHypothesis =>
      rw [highest_concat]
      rcases List.mem_append.mp member with inFront | isLast
      · exact Nat.le_trans (inductionHypothesis inFront) (Nat.le_max_left _ _)
      · rw [List.mem_singleton.mp isLast]
        exact Nat.le_max_right _ _

/-- What placing makes of an order: the same buffers in the same positions, each at its lowest
offset and within a word, and the end of the highest. -/
structure Places (order placed : List Candidate) (high : Nat) : Prop where
  kept : placed.map (Prod.map Buffer.unplaced id) = order.map (Prod.map Buffer.unplaced id)
  lowest : Lowest placed
  fits : ∀ candidate ∈ placed, candidate.1.block.Fits
  mark : high = highest placed

theorem places_nil : Places [] [] 0 :=
  ⟨rfl, lowest_nil, List.forall_mem_nil _, rfl⟩

/-- One more buffer has been placed. -/
theorem Places.next {buffer : Buffer} {index gap : Nat} {blocked : List Span}
    (places : Places order placed high) (found : blockedSpans placed buffer = .ok blocked)
    (gapFound : lowestGap buffer.block.size 0 (sortBy spanBefore blocked) = .ok gap)
    (inWord : gap + buffer.block.size ≤ Word.largest) :
    Places (order ++ [(buffer, index)])
      (placed ++ [({ buffer with block := ⟨gap, buffer.block.size⟩ }, index)])
      (max high (gap + buffer.block.size)) := by
  refine ⟨?_, places.lowest.concat ?_, ?_, ?_⟩
  · rw [List.map_append, List.map_append, places.kept]
    rfl
  · exact lowestAfter_of_lowestGap places.lowest.emptyLow found gapFound
  · intro candidate member
    rcases List.mem_append.mp member with old | new
    · exact places.fits candidate old
    · rw [List.mem_singleton.mp new]
      exact inWord
  · rw [highest_concat, places.mark]

theorem Places.placeAll {rest result : List Candidate} {top : Nat}
    (places : Places order placed high)
    (done : Schedule.placeAll rest placed high = .ok (result, top)) :
    Places (order ++ rest) result top := by
  induction rest generalizing order placed high with
  | nil =>
      simp only [Schedule.placeAll, Checked.pure_eq_ok, Prod.mk.injEq] at done
      rcases done with ⟨rfl, rfl⟩
      rwa [List.append_nil]
  | cons head rest inductionHypothesis =>
      rcases head with ⟨buffer, index⟩
      simp only [Schedule.placeAll, Checked.bind_eq_ok, Word.add_eq_ok] at done
      rcases done with ⟨blocked, found, gap, gapFound, _, ⟨rfl, inWord⟩, later⟩
      rw [List.append_cons]
      exact inductionHypothesis (places.next found gapFound inWord) later

theorem places_of_place (done : place order = .ok (placed, high)) : Places order placed high :=
  places_nil.placeAll done

/-! ## Placing comes to an end -/

/-- The bytes that some candidates take. -/
def bytesOf (candidates : List Candidate) : Nat :=
  (candidates.map fun candidate => candidate.1.block.size).sum

/-- Buffers can be placed above what is spent if there is room for all of them. -/
theorem exists_placeAll {spent : Nat} (high : Nat)
    (below : ∀ candidate ∈ placed, candidate.1.block.offset + candidate.1.block.size ≤ spent)
    (room : spent + bytesOf order ≤ Word.largest) :
    ∃ result top, placeAll order placed high = .ok (result, top) := by
  induction order generalizing placed spent high with
  | nil => exact ⟨placed, high, rfl⟩
  | cons head rest inductionHypothesis =>
      rcases head with ⟨buffer, index⟩
      have parts : bytesOf ((buffer, index) :: rest) = buffer.block.size + bytesOf rest := by
        rw [bytesOf, List.map_cons, List.sum_cons, bytesOf]
      rcases exists_blockedSpans buffer below (by omega) with ⟨blocked, found, stops⟩
      have sortedStops : ∀ span ∈ sortBy spanBefore blocked, span.stop ≤ spent :=
        fun span member => stops span ((sortBy_perm spanBefore blocked).mem_iff.mp member)
      rcases exists_lowestGap (Nat.zero_le spent) sortedStops
        (show spent + buffer.block.size ≤ Word.largest by omega) with ⟨gap, gapFound, gapLow⟩
      have stop : Word.add gap buffer.block.size = .ok (gap + buffer.block.size) :=
        Word.add_eq_ok.mpr ⟨rfl, by omega⟩
      have nowBelow : ∀ candidate ∈ placed ++
          [({ buffer with block := ⟨gap, buffer.block.size⟩ }, index)],
          candidate.1.block.offset + candidate.1.block.size ≤ spent + buffer.block.size := by
        intro candidate member
        rcases List.mem_append.mp member with old | new
        · exact Nat.le_trans (below candidate old) (Nat.le_add_right _ _)
        · rw [List.mem_singleton.mp new]
          exact Nat.add_le_add_right gapLow _
      rcases inductionHypothesis (max high (gap + buffer.block.size)) nowBelow (by omega) with
        ⟨result, top, placedAll⟩
      refine ⟨result, top, ?_⟩
      simp only [placeAll, Checked.bind_eq_ok]
      exact ⟨blocked, found, gap, gapFound, _, stop, placedAll⟩

end

section

variable {buffers : List Buffer} {placed order : List Candidate} {high : Nat}

/-- Buffers whose sizes add up to a word can be placed in any order. -/
theorem exists_place (room : (buffers.map fun buffer => buffer.block.size).sum ≤ Word.largest)
    (permuted : order.Perm buffers.zipIdx) :
    ∃ placed high, place order = .ok (placed, high) := by
  have total : bytesOf order = (buffers.map fun buffer => buffer.block.size).sum := by
    calc
      bytesOf order
      _ = bytesOf buffers.zipIdx := (permuted.map _).sum_nat
      _ = ((buffers.zipIdx.map Prod.fst).map fun buffer => buffer.block.size).sum := by
        rw [bytesOf, List.map_map]; rfl
      _ = (buffers.map fun buffer => buffer.block.size).sum := by rw [List.zipIdx_map_fst]
  exact exists_placeAll 0 (List.forall_mem_nil _) (show 0 + bytesOf order ≤ Word.largest by omega)

/-! ## Back in their positions -/

theorem pairwise_position (placed : List Candidate) :
    (sortBy (fun first second => decide (first.2 < second.2)) placed).Pairwise
      fun first second => first.2 ≤ second.2 := by
  apply pairwise_sortBy
  · intro first second third
    exact Nat.le_trans
  · intro first second before
    exact Nat.le_of_lt (of_decide_eq_true before)
  · intro first second notBefore
    exact Nat.le_of_not_lt (of_decide_eq_false notBefore)

theorem inPositions_perm (placed : List Candidate) :
    (inPositions placed).Perm (placed.map Prod.fst) :=
  (sortBy_perm _ placed).map Prod.fst

/-- The placed buffers, in their positions, are the given ones but for their offsets. -/
theorem Places.inPositions_eq (places : Places order placed high)
    (permuted : order.Perm buffers.zipIdx) :
    (inPositions placed).map Buffer.unplaced = buffers.map Buffer.unplaced := by
  let sorted := sortBy (fun first second : Candidate => decide (first.2 < second.2)) placed
  have positions : sorted.Perm placed := sortBy_perm _ placed
  have kept : (sorted.map (Prod.map Buffer.unplaced id)).Perm
      (buffers.zipIdx.map (Prod.map Buffer.unplaced id)) := by
    refine (positions.map _).trans ?_
    rw [places.kept]
    exact permuted.map _
  have indices : (buffers.zipIdx.map (Prod.map Buffer.unplaced id)).map Prod.snd =
      List.range buffers.length := by
    rw [List.map_map, List.range_eq_range', ← List.zipIdx_map_snd 0 buffers]
    rfl
  have rising : (buffers.zipIdx.map (Prod.map Buffer.unplaced id)).Pairwise
      fun first second => first.2 < second.2 := by
    rw [← List.pairwise_map, indices]
    exact List.pairwise_lt_range
  have sortedRising : (sorted.map (Prod.map Buffer.unplaced id)).Pairwise
      fun first second => first.2 < second.2 := by
    have different := (kept.map Prod.snd).nodup_iff.mpr (indices ▸ List.nodup_range)
    rw [List.map_map, List.Nodup, List.pairwise_map] at different
    rw [List.pairwise_map]
    exact ((pairwise_position placed).and different).imp
      fun both => Nat.lt_of_le_of_ne both.1 both.2
  have antisymmetric : Std.Antisymm fun first second : Candidate => first.2 < second.2 :=
    ⟨fun _ _ low high => absurd high (Nat.lt_asymm low)⟩
  have same := kept.eq_of_pairwise' sortedRising rising
  calc
    (inPositions placed).map Buffer.unplaced
    _ = (sorted.map (Prod.map Buffer.unplaced id)).map Prod.fst := by
      rw [inPositions, List.map_map, List.map_map]; rfl
    _ = (buffers.zipIdx.map (Prod.map Buffer.unplaced id)).map Prod.fst := by rw [same]
    _ = (buffers.zipIdx.map Prod.fst).map Buffer.unplaced := by
      rw [List.map_map, List.map_map]; rfl
    _ = buffers.map Buffer.unplaced := by rw [List.zipIdx_map_fst]

theorem mem_inPositions {buffer : Buffer} :
    buffer ∈ inPositions placed ↔ ∃ candidate ∈ placed, candidate.1 = buffer := by
  rw [(inPositions_perm placed).mem_iff, List.mem_map]

theorem Places.fits_and_below (places : Places order placed high) {buffer : Buffer}
    (member : buffer ∈ inPositions placed) :
    buffer.block.Fits ∧ buffer.block.offset + buffer.block.size ≤ high := by
  rcases mem_inPositions.mp member with ⟨candidate, isPlaced, rfl⟩
  rw [places.mark]
  exact ⟨places.fits candidate isPlaced, le_highest isPlaced⟩

/-- The check accepts every placement. -/
theorem Places.findConflict_eq_none (places : Places order placed high)
    (permuted : order.Perm buffers.zipIdx)
    (ordered : ∀ buffer ∈ buffers, buffer.first ≤ buffer.last) :
    findConflict (inPositions placed) = .ok none := by
  have apart : placed.Pairwise fun first second => ¬ first.1.Clashes second.1 := by
    refine places.lowest.pairwise.imp ?_
    rintro first second apart ⟨_, together, meets⟩
    exact apart (decide_eq_true together) meets
  refine (Schedule.findConflict_eq_none ?_ ?_).mpr ?_
  · exact fun buffer member => (places.fits_and_below member).1
  · intro buffer member
    have listed : buffer.unplaced ∈ (inPositions placed).map Buffer.unplaced :=
      List.mem_map_of_mem member
    rw [places.inPositions_eq permuted] at listed
    rcases List.mem_map.mp listed with ⟨old, isGiven, same⟩
    rcases Buffer.unplaced_eq_iff.mp same with ⟨_, _, _, first, last, _⟩
    rw [← first, ← last]
    exact ordered old isGiven
  · exact (List.pairwise_map.mpr apart).perm (inPositions_perm placed).symm
      fun clashFree clashes => clashFree clashes.symm

/-! ## The orders -/

theorem largestFirst_perm (candidates : List Candidate) :
    (largestFirst candidates).Perm candidates :=
  sortBy_perm _ candidates

theorem longestFirst_perm {candidates result : List Candidate}
    (done : longestFirst candidates = .ok result) : result.Perm candidates := by
  simp only [longestFirst, Checked.bind_eq_ok, Checked.pure_eq_ok] at done
  rcases done with ⟨keyed, paired, rfl⟩
  have forgetKeys : keyed.map Prod.snd = candidates := by
    induction candidates generalizing keyed with
    | nil =>
        rw [List.mapM_nil, Checked.pure_eq_ok] at paired
        rw [← paired]
        rfl
    | cons head rest inductionHypothesis =>
        simp only [List.mapM_cons, Checked.bind_eq_ok, Checked.pure_eq_ok] at paired
        rcases paired with ⟨_, ⟨_, _, rfl⟩, later, found, rfl⟩
        rw [List.map_cons, inductionHypothesis later found]
  rw [← forgetKeys]
  exact (sortBy_perm _ keyed).map Prod.snd

theorem exists_longestFirst {candidates : List Candidate}
    (ordered : ∀ candidate ∈ candidates, candidate.1.first ≤ candidate.1.last) :
    ∃ order, longestFirst candidates = .ok order := by
  have each : ∀ candidate ∈ candidates, ∃ keyed : Nat × Candidate,
      (do return (← Word.sub candidate.1.last candidate.1.first, candidate)) =
        (.ok keyed : Checked (Nat × Candidate)) := by
    intro candidate member
    have length : Word.sub candidate.1.last candidate.1.first =
        .ok (candidate.1.last - candidate.1.first) :=
      Word.sub_eq_ok.mpr (Nat.sub_add_cancel (ordered candidate member)).symm
    rw [length]
    exact ⟨_, rfl⟩
  rcases Checked.exists_mapM_eq_ok each with ⟨keyed, found⟩
  simp only [longestFirst, Checked.bind_eq_ok]
  exact ⟨_, keyed, found, rfl⟩

theorem shuffled_perm {shuffles : List Shuffle} {start : List Candidate}
    (member : order ∈ shuffled shuffles start) : order.Perm start := by
  induction shuffles generalizing start with
  | nil => cases member
  | cons shuffle rest inductionHypothesis =>
      rcases List.mem_cons.mp member with rfl | later
      · exact shuffle.perm start
      · exact (inductionHypothesis later).trans (shuffle.perm start)

/-- The best placement is the one to start with or one in some of the orders. -/
theorem bestOf_eq_ok {orders : List (List Candidate)} {best result : List Candidate × Nat}
    (done : bestOf orders best = .ok result) :
    result = best ∨ ∃ order ∈ orders, place order = .ok result := by
  induction orders generalizing best with
  | nil => exact Or.inl (Checked.pure_eq_ok.mp done).symm
  | cons order rest inductionHypothesis =>
      rcases Checked.bind_eq_ok.mp done with ⟨next, found, further⟩
      rcases inductionHypothesis further with kept | ⟨later, member, placed⟩
      · split at kept
        · exact Or.inr ⟨order, List.mem_cons_self, kept ▸ found⟩
        · exact Or.inl kept
      · exact Or.inr ⟨later, List.mem_cons_of_mem order member, placed⟩

theorem exists_bestOf {orders : List (List Candidate)}
    (each : ∀ order ∈ orders, ∃ placed high, place order = .ok (placed, high))
    (best : List Candidate × Nat) : ∃ placed high, bestOf orders best = .ok (placed, high) := by
  induction orders generalizing best with
  | nil => exact ⟨best.1, best.2, rfl⟩
  | cons order rest inductionHypothesis =>
      rcases List.forall_mem_cons.mp each with ⟨⟨next, nextHigh, found⟩, others⟩
      rcases inductionHypothesis others (if nextHigh < best.2 then (next, nextHigh) else best) with
        ⟨placed, high, done⟩
      exact ⟨placed, high, Checked.bind_eq_ok.mpr ⟨_, found, done⟩⟩

/-- Whatever order is tried after the first is a rearrangement of the longest-lived first. -/
theorem perm_of_mem_tried {shuffles : List Shuffle} {byLife : List Candidate}
    (sorted : longestFirst (largestFirst buffers.zipIdx) = .ok byLife)
    (member : order ∈ byLife :: shuffled shuffles byLife) : order.Perm buffers.zipIdx := by
  have byLifePerm : byLife.Perm buffers.zipIdx :=
    (longestFirst_perm sorted).trans (largestFirst_perm _)
  rcases List.mem_cons.mp member with rfl | later
  · exact byLifePerm
  · exact (shuffled_perm later).trans byLifePerm

/-- The best placement is one in some order. -/
theorem bestPlacement_eq_ok {shuffles : List Shuffle}
    (done : bestPlacement shuffles buffers = .ok (placed, high)) :
    ∃ order, order.Perm buffers.zipIdx ∧ Places order placed high := by
  simp only [bestPlacement, Checked.bind_eq_ok] at done
  rcases done with ⟨first, firstFound, byLife, sorted, chosen⟩
  rcases bestOf_eq_ok chosen with rfl | ⟨order, member, found⟩
  · exact ⟨_, largestFirst_perm _, places_of_place firstFound⟩
  · exact ⟨order, perm_of_mem_tried sorted member, places_of_place found⟩

/-- All placements are found if the sizes add up to a word. -/
theorem exists_bestPlacement (ordered : ∀ buffer ∈ buffers, buffer.first ≤ buffer.last)
    (room : (buffers.map fun buffer => buffer.block.size).sum ≤ Word.largest)
    (shuffles : List Shuffle) :
    ∃ placed high, bestPlacement shuffles buffers = .ok (placed, high) := by
  have bySize := largestFirst_perm buffers.zipIdx
  have inOrder : ∀ candidate ∈ largestFirst buffers.zipIdx,
      candidate.1.first ≤ candidate.1.last := by
    intro candidate member
    apply ordered
    rw [← List.zipIdx_map_fst 0 buffers]
    exact List.mem_map_of_mem (bySize.mem_iff.mp member)
  rcases exists_longestFirst inOrder with ⟨byLife, sorted⟩
  rcases exists_place room bySize with ⟨first, firstHigh, firstFound⟩
  have others : ∀ order ∈ byLife :: shuffled shuffles byLife,
      ∃ placed high, place order = .ok (placed, high) :=
    fun order member => exists_place room (perm_of_mem_tried sorted member)
  rcases exists_bestOf others (first, firstHigh) with ⟨placed, high, done⟩
  simp only [bestPlacement, Checked.bind_eq_ok]
  exact ⟨placed, high, _, firstFound, byLife, sorted, done⟩

/-! ## No placement is turned down -/

/-- A journal reports no placement as rejected that another one does not. -/
def NoneRejected (before after : Journal) : Prop :=
  ∀ kind, .placementRejected kind ∈ after → .placementRejected kind ∈ before

variable {capacities : PerKind (Option Nat)} {shuffles : Shuffles}
  {entries : List (MemoryKind × List Buffer)}

/-- An attempt to pack one memory comes to an end, and what it reports is that the placement is
better or that it is not. -/
theorem exists_packKind (ordered : ∀ buffer ∈ buffers, buffer.first ≤ buffer.last)
    (room : (buffers.map fun buffer => buffer.block.size).sum ≤ Word.largest)
    (kind : MemoryKind) (schedule : Schedule) (journal : Journal) :
    ∃ outcome after,
      packKind capacities shuffles kind buffers schedule journal = .ok outcome after ∧
        NoneRejected journal after := by
  rcases exists_bestPlacement ordered room (shuffles.get kind) with ⟨placed, high, found⟩
  rcases bestPlacement_eq_ok found with ⟨order, permuted, places⟩
  have checked := places.findConflict_eq_none permuted ordered
  have quiet : ∀ event : Event, (∀ kind, event ≠ .placementRejected kind) →
      NoneRejected journal (journal.push event) := by
    intro event accepting kind member
    refine (Array.mem_push.mp member).resolve_right ?_
    exact fun same => accepting kind same.symm
  unfold packKind
  rw [Stateful.bind_of_lift found]
  dsimp only
  split
  · exact ⟨_, _, rfl, quiet _ fun _ => Event.noConfusion⟩
  · rw [Stateful.bind_of_lift checked]
    exact ⟨_, _, rfl, quiet _ fun _ => Event.noConfusion⟩

theorem exists_packKinds
    (ordered : ∀ entry ∈ entries, ∀ buffer ∈ entry.2, buffer.first ≤ buffer.last)
    (room : ∀ entry ∈ entries,
      (entry.2.map fun buffer => buffer.block.size).sum ≤ Word.largest)
    (schedule : Schedule) (journal : Journal) :
    ∃ changed packed after, packKinds capacities shuffles entries schedule journal =
      .ok (changed, packed) after ∧ NoneRejected journal after := by
  induction entries generalizing schedule journal with
  | nil => exact ⟨false, schedule, journal, rfl, fun _ => id⟩
  | cons entry rest inductionHypothesis =>
      rcases entry with ⟨kind, buffers⟩
      rcases List.forall_mem_cons.mp ordered with ⟨headOrdered, restOrdered⟩
      rcases List.forall_mem_cons.mp room with ⟨headRoom, restRoom⟩
      rcases exists_packKind headOrdered headRoom kind schedule journal with
        ⟨outcome, between, attempted, first⟩
      rw [packKinds, Stateful.bind_of_ok attempted]
      cases outcome with
      | none =>
          rcases inductionHypothesis restOrdered restRoom schedule between with
            ⟨changed, packed, after, later, others⟩
          exact ⟨changed, packed, after, later, fun kind member => first kind (others kind member)⟩
      | some better =>
          rcases inductionHypothesis restOrdered restRoom better between with
            ⟨changed, packed, after, later, others⟩
          dsimp only
          rw [Stateful.bind_of_ok later]
          exact ⟨true, packed, after, rfl, fun kind member => first kind (others kind member)⟩

/-- The buffers of every scratch memory end no earlier than they start, and their sizes add up
to a word. -/
structure Placeable (schedule : Schedule) : Prop where
  ordered : ∀ kind, kind.isPersistent = false →
    ∀ buffer ∈ schedule.buffersOf kind, buffer.first ≤ buffer.last
  room : ∀ kind, kind.isPersistent = false →
    ((schedule.buffersOf kind).map fun buffer => buffer.block.size).sum ≤ Word.largest

theorem exists_packable {schedule : Schedule} {entry : MemoryKind × List Buffer}
    (member : entry ∈ schedule.packable) :
    ∃ kind, kind.isPersistent = false ∧ entry = (kind, schedule.buffersOf kind) := by
  rcases List.mem_map.mp (List.mem_filter.mp member).1 with ⟨kind, scratch, rfl⟩
  exact ⟨kind, by simpa using (List.mem_filter.mp scratch).2, rfl⟩

theorem Placeable.exists_packKinds {schedule : Schedule} (placeable : schedule.Placeable)
    (journal : Journal) :
    ∃ changed packed after, packKinds capacities shuffles schedule.packable schedule journal =
      .ok (changed, packed) after ∧ NoneRejected journal after := by
  refine Schedule.exists_packKinds ?_ ?_ schedule journal
  · intro entry member
    rcases exists_packable member with ⟨kind, scratch, rfl⟩
    exact placeable.ordered kind scratch
  · intro entry member
    rcases exists_packable member with ⟨kind, scratch, rfl⟩
    exact placeable.room kind scratch

/-- Packing never reports a placement as rejected. -/
theorem Placeable.noneRejected {schedule : Schedule} (placeable : schedule.Placeable)
    (budget : Nat) (journal : Journal) :
    NoneRejected journal (Stateful.final (schedule.pack capacities budget shuffles) journal) := by
  apply Stateful.Ends.final
  unfold pack
  split
  · exact fun _ => id
  · rcases placeable.exists_packKinds journal with
      ⟨changed, packed, after, done, accepting⟩
    rw [Stateful.ends_bind, Stateful.ends_of_ok done]
    cases changed with
    | false => exact accepting
    | true =>
        dsimp only
        rw [if_pos rfl, Stateful.ends_bind]
        exact Stateful.ends_lift (fun _ _ => accepting) accepting

/-- Buffers whose sizes add up to a word can be placed in any order.  Each comes to the lowest
offset at which it shares no byte with those placed before it that live together with it, so no
two that live together share one; the returned mark is the end of the highest.  If no buffer
ends before it starts, the check accepts the placement, and so packing never turns one down. -/
theorem place_lowest_in_any_order
    (room : (buffers.map fun buffer => buffer.block.size).sum ≤ Word.largest)
    (permuted : order.Perm buffers.zipIdx) :
    (∃ placed high, place order = .ok (placed, high) ∧ Places order placed high ∧
      (inPositions placed).map Buffer.unplaced = buffers.map Buffer.unplaced ∧
      (placed.Pairwise fun first second => first.1.lifetimesMeet second.1 = true →
        ¬ first.1.block.Meets second.1.block) ∧
      ((∀ buffer ∈ buffers, buffer.first ≤ buffer.last) →
        findConflict (inPositions placed) = .ok none)) ∧
    ∀ (schedule : Schedule) (capacities : PerKind (Option Nat)) (budget : Nat)
      (shuffles : Shuffles) (journal : Journal), schedule.Placeable →
        NoneRejected journal
          (Stateful.final (schedule.pack capacities budget shuffles) journal) := by
  constructor
  · rcases exists_place room permuted with ⟨placed, high, done⟩
    have places := places_of_place done
    exact ⟨placed, high, done, places, places.inPositions_eq permuted, places.lowest.pairwise,
      places.findConflict_eq_none permuted⟩
  · intro schedule capacities budget shuffles journal placeable
    exact placeable.noneRejected budget journal

end

/-- Buffers of one memory that partly live together, one of them without bytes. -/
def staggered : List Buffer :=
  [⟨⟨0, 0⟩, .main, ⟨0, 10⟩, 1, 2, false⟩, ⟨⟨1, 0⟩, .main, ⟨10, 10⟩, 2, 4, false⟩,
    ⟨⟨2, 0⟩, .main, ⟨0, 0⟩, 2, 3, false⟩, ⟨⟨3, 0⟩, .main, ⟨20, 11⟩, 3, 4, false⟩,
    ⟨⟨4, 0⟩, .main, ⟨0, 1⟩, 4, 4, true⟩]

/-- A schedule with these buffers and room to spare above them. -/
def staggeredSchedule : Schedule where
  sequence := []
  buffers := staggered.foldl (fun map buffer => map.insert buffer.outlet buffer) .empty
  highWater := .tabulate fun _ => 31
  peakLive := .tabulate fun _ => 22

theorem placeable_staggered : staggeredSchedule.Placeable := by
  constructor
  · intro kind _
    cases kind <;> decide
  · intro kind _
    cases kind <;> decide

/-- Placed from the last to the first, the second buffer comes above two others, and the first
one below it again. -/
theorem place_lowest_staggered :
    (∃ placed high, place staggered.zipIdx.reverse = .ok (placed, high) ∧ high = 22 ∧
      (inPositions placed).map (fun buffer => buffer.block.offset) = [0, 12, 0, 1, 0] ∧
      Places staggered.zipIdx.reverse placed high ∧
      findConflict (inPositions placed) = .ok none) ∧
    NoneRejected #[]
      (Stateful.final (staggeredSchedule.pack (.tabulate fun _ => none) 1) #[]) := by
  have room : (staggered.map fun buffer => buffer.block.size).sum ≤ Word.largest := by decide
  rcases place_lowest_in_any_order room (List.reverse_perm _) with
    ⟨⟨placed, high, done, places, _, _, accepted⟩, packed⟩
  refine ⟨⟨placed, high, done, ?_, ?_, places, accepted (by decide)⟩,
    packed _ _ 1 noShuffles _ placeable_staggered⟩
  · rcases Prod.mk.inj (Except.ok.inj done) with ⟨-, rfl⟩
    rfl
  · rcases Prod.mk.inj (Except.ok.inj done) with ⟨rfl, -⟩
    rfl

end Schedule
end TensorCompiler
