import Mathlib.Data.List.Sort
import TensorCompiler.Proofs.Memory.Headroom

namespace TensorCompiler

/-!
# The ledger of an address space

A ledger is a free space together with the blocks that it has lent and not got back.  As
long as only lent blocks come back, every request is served without a fault, and the spans
of the free space are the gaps that the lent blocks leave: the longest runs of addresses
that none of them covers.  So the spans can be read off the lent blocks alone.  The order
of the requests leaves no trace in them, and once every block is back, in whatever order,
the whole address space is one span again.
-/

namespace FreeSpace

/-! ## Gaps -/

/-- A span of addresses that all have a property, and that cannot be made longer. -/
structure IsGap (vacant : Nat → Prop) (span : Span) : Prop where
  nonempty : span.start < span.stop
  within : ∀ address, span.Covers address → vacant address
  maximal : ∀ wider : Span, wider.start ≤ span.start → span.stop ≤ wider.stop →
    (∀ address, wider.Covers address → vacant address) → wider = span

variable {vacant : Nat → Prop} {spans others : List Span}

/-- Spans in order are exactly the gaps of what they cover. -/
theorem InOrder.mem_iff_isGap (ordered : InOrder spans)
    (exact : ∀ address, Covered spans address ↔ vacant address) (span : Span) :
    span ∈ spans ↔ IsGap vacant span := by
  constructor
  · intro member
    have nonempty := ordered.nonempty span member
    refine ⟨nonempty, fun address covers => (exact address).mp ⟨span, member, covers⟩, ?_⟩
    intro wider low high allVacant
    -- What is vacant in a row lies in one span, and that span can only be the given one.
    have covered : ∀ address, wider.start ≤ address → address < wider.stop →
        Covered spans address := fun address above below =>
      (exact address).mpr (allVacant address ⟨above, below⟩)
    rcases exists_span ordered (by omega) covered with ⟨other, otherMember, otherLow, otherHigh⟩
    rcases ordered.eq_of_touch member otherMember (by omega) (by omega) with rfl
    rw [Span.mk.injEq]
    omega
  · intro gap
    rcases exists_span ordered gap.nonempty
      (fun address above below => (exact address).mpr (gap.within address ⟨above, below⟩))
      with ⟨wider, member, low, high⟩
    have same := gap.maximal wider low high
      fun address covers => (exact address).mp ⟨wider, member, covers⟩
    exact same ▸ member

/-- Spans in order are determined by what they cover. -/
theorem InOrder.eq_of_covered (ordered : InOrder spans) (othersOrdered : InOrder others)
    (same : ∀ address, Covered spans address ↔ Covered others address) : spans = others := by
  have irreflexive : Std.Irrefl fun first second : Span => first.start < second.start :=
    ⟨fun _ => Nat.lt_irrefl _⟩
  have antisymmetric : Std.Antisymm fun first second : Span => first.start < second.start :=
    ⟨fun _ _ low high => absurd high (Nat.lt_asymm low)⟩
  have rising : ∀ {list : List Span}, InOrder list →
      list.Pairwise fun first second => first.start < second.start := by
    intro list listOrdered
    refine listOrdered.apart.imp_of_mem ?_
    intro first second member _ before
    exact Nat.lt_trans (listOrdered.nonempty first member) before
  refine (rising ordered).eq_of_mem_iff (rising othersOrdered) ?_
  intro span
  rw [ordered.mem_iff_isGap same, othersOrdered.mem_iff_isGap fun _ => Iff.rfl]

/-- The number of bytes of an address space. -/
def extent (capacity : Option Nat) : Nat :=
  capacity.getD Word.largest

theorem extent_le {capacity : Option Nat}
    (fits : ∀ size, capacity = some size → size ≤ Word.largest) :
    extent capacity ≤ Word.largest := by
  cases capacity with
  | none => exact Nat.le_refl _
  | some size => exact fits size rfl

theorem free_ofCapacity {capacity : Option Nat} {address : Nat} :
    (ofCapacity capacity).Free address ↔ address < extent capacity := by
  unfold Free ofCapacity extent
  by_cases none : capacity.getD Word.largest = 0
  · rw [if_pos none]
    simp [Covered, none]
  · rw [if_neg none]
    simp [Covered, Span.Covers]

/-- A block that is given out ends where the free addresses end, or before.  An empty one
lies at the start. -/
theorem stop_le_of_allocate {space after : FreeSpace} {size limit : Nat} {block : Block}
    (wellFormed : space.WellFormed) (inside : ∀ address, space.Free address → address < limit)
    (given : space.allocate size = some (block, after)) : block.offset + block.size ≤ limit := by
  rcases allocate_eq_some wellFormed given with ⟨-, sized, -, wasFree, -⟩
  by_cases empty : size = 0
  · rw [allocate, if_pos empty] at given
    rcases Prod.mk.inj (Option.some.inj given) with ⟨rfl, -⟩
    exact Nat.zero_le _
  · have last := wasFree (block.offset + block.size - 1) ⟨by omega, by omega⟩
    have := inside _ last
    omega

end FreeSpace

/-! ## Requests -/

/-- A free space, and the blocks that it has lent. -/
structure Ledger where
  space : FreeSpace
  lent : List Block

/-- What an address space can be asked for. -/
inductive Request where
  | allocate (size : Nat)
  | release (block : Block)

namespace Ledger

/-- The ledger of an address space that has lent nothing. -/
def opened (capacity : Option Nat) : Ledger :=
  ⟨.ofCapacity capacity, []⟩

/-- Answer a request.  One that no span is long enough for changes nothing. -/
def serve (ledger : Ledger) : Request → Checked Ledger
  | .allocate size =>
    match ledger.space.allocate size with
    | none => return ledger
    | some (block, space) => return ⟨space, block :: ledger.lent⟩
  | .release block => do
    return ⟨← ledger.space.release block, ledger.lent.erase block⟩

/-- Answer requests in turn. -/
def serveAll (ledger : Ledger) (requests : List Request) : Checked Ledger :=
  requests.foldlM serve ledger

/-- Each block that is given back is lent at that time. -/
def Honest (ledger : Ledger) (requests : List Request) : Prop :=
  ∀ earlier block later, requests = earlier ++ .release block :: later →
    ∀ between, ledger.serveAll earlier = .ok between → block ∈ between.lent

/-- An address of the first `limit` that no block covers. -/
def Vacant (limit : Nat) (blocks : List Block) (address : Nat) : Prop :=
  address < limit ∧ ∀ block ∈ blocks, ¬ block.Covers address

/-- The free space is what the lent blocks leave of the first `limit` addresses. -/
structure Balanced (limit : Nat) (ledger : Ledger) : Prop where
  ordered : FreeSpace.InOrder ledger.space.spans
  exact : ∀ address, ledger.space.Free address ↔ Vacant limit ledger.lent address
  inside : ∀ block ∈ ledger.lent, block.offset + block.size ≤ limit
  apart : ledger.lent.Pairwise fun first second => ¬ first.Meets second

variable {limit : Nat} {ledger other : Ledger} {block : Block} {capacity : Option Nat}
  {requests : List Request}

theorem serveAll_cons_eq_ok {request : Request} {result : Ledger} :
    ledger.serveAll (request :: requests) = .ok result ↔
      ∃ between, ledger.serve request = .ok between ∧ between.serveAll requests = .ok result := by
  rw [serveAll, List.foldlM_cons]
  exact Checked.bind_eq_ok

theorem Honest.rest {request : Request} {between : Ledger}
    (honest : ledger.Honest (request :: requests)) (served : ledger.serve request = .ok between) :
    between.Honest requests := by
  intro earlier block later split result reached
  refine honest (request :: earlier) block later (by rw [split, List.cons_append]) result ?_
  exact serveAll_cons_eq_ok.mpr ⟨between, served, reached⟩

theorem honest_nil : ledger.Honest [] := by
  rintro (_ | ⟨_, _⟩) block later split
  · cases split
  · cases split

theorem Honest.cons {request : Request} {between : Ledger}
    (lent : ∀ block, request = .release block → block ∈ ledger.lent)
    (served : ledger.serve request = .ok between) (rest : between.Honest requests) :
    ledger.Honest (request :: requests) := by
  rintro (_ | ⟨first, earlier⟩) block later split result reached
  · rcases Except.ok.inj reached with rfl
    exact lent block (List.cons.inj split).1
  · rcases List.cons.inj split with ⟨rfl, tail⟩
    rcases serveAll_cons_eq_ok.mp reached with ⟨next, nextServed, reached⟩
    rcases Except.ok.inj (served.symm.trans nextServed) with rfl
    exact rest earlier block later tail result reached

/-! ## What a request keeps -/

theorem Balanced.wellFormed (balanced : ledger.Balanced limit) (small : limit ≤ Word.largest) :
    ledger.space.WellFormed where
  ordered := balanced.ordered
  bounded address free := Nat.lt_of_lt_of_le ((balanced.exact address).mp free).1 small

theorem balanced_opened : (opened capacity).Balanced (FreeSpace.extent capacity) := by
  refine ⟨?_, ?_, List.forall_mem_nil _, .nil⟩
  · unfold opened FreeSpace.ofCapacity
    by_cases none : capacity.getD Word.largest = 0
    · simp only [if_pos none]
      exact FreeSpace.inOrder_nil
    · simp only [if_neg none]
      exact FreeSpace.inOrder_cons.mpr ⟨Nat.pos_of_ne_zero none, List.forall_mem_nil _,
        FreeSpace.inOrder_nil⟩
  · intro address
    simp [opened, FreeSpace.free_ofCapacity, Vacant]

theorem Balanced.perm {blocks : List Block} (balanced : ledger.Balanced limit)
    (same : ledger.lent.Perm blocks) : Balanced limit ⟨ledger.space, blocks⟩ where
  ordered := balanced.ordered
  exact address := by
    simp only [balanced.exact, Vacant, same.mem_iff]
  inside block member := balanced.inside block (same.mem_iff.mpr member)
  apart := by
    refine balanced.apart.perm same ?_
    rintro first second away ⟨address, covers, otherCovers⟩
    exact away ⟨address, otherCovers, covers⟩

theorem Balanced.allocate {size : Nat} {space : FreeSpace} (balanced : ledger.Balanced limit)
    (small : limit ≤ Word.largest) (given : ledger.space.allocate size = some (block, space)) :
    Balanced limit ⟨space, block :: ledger.lent⟩ := by
  rcases FreeSpace.allocate_eq_some (balanced.wellFormed small) given with
    ⟨wellFormed, -, -, wasFree, isFree⟩
  refine ⟨wellFormed.ordered, ?_, ?_, ?_⟩
  · intro address
    rw [isFree, balanced.exact, Vacant, Vacant, List.forall_mem_cons, and_assoc]
    exact and_congr_right fun _ => And.comm
  · refine List.forall_mem_cons.mpr ⟨?_, balanced.inside⟩
    exact FreeSpace.stop_le_of_allocate (balanced.wellFormed small)
      (fun address free => ((balanced.exact address).mp free).1) given
  · refine List.pairwise_cons.mpr ⟨?_, balanced.apart⟩
    rintro earlier member ⟨address, covers, earlierCovers⟩
    exact ((balanced.exact address).mp (wasFree address covers)).2 earlier member earlierCovers

/-- A lent block can be taken back. -/
theorem Balanced.release {space : FreeSpace} {blocks : List Block}
    (balanced : Balanced limit ⟨space, block :: blocks⟩) (small : limit ≤ Word.largest) :
    ∃ after, space.release block = .ok after ∧ Balanced limit ⟨after, blocks⟩ := by
  rcases List.forall_mem_cons.mp balanced.inside with ⟨blockInside, othersInside⟩
  rcases List.pairwise_cons.mp balanced.apart with ⟨blockApart, othersApart⟩
  have taken : ∀ address, block.Covers address → ¬ space.Free address := fun address covers free =>
    ((balanced.exact address).mp free).2 block List.mem_cons_self covers
  have wellFormed : space.WellFormed := balanced.wellFormed small
  rcases FreeSpace.exists_release wellFormed (Nat.le_trans blockInside small) taken with
    ⟨after, released⟩
  rcases FreeSpace.release_eq_ok wellFormed released with ⟨afterWellFormed, isFree, -⟩
  refine ⟨after, released, afterWellFormed.ordered, ?_, othersInside, othersApart⟩
  intro address
  have before : space.Free address ↔ Vacant limit (block :: blocks) address :=
    balanced.exact address
  rw [isFree, before]
  simp only [Vacant, List.forall_mem_cons]
  constructor
  · rintro (⟨inside, -, others⟩ | covers)
    · exact ⟨inside, others⟩
    · exact ⟨Nat.lt_of_lt_of_le covers.2 blockInside, fun other member otherCovers =>
        blockApart other member ⟨address, covers, otherCovers⟩⟩
  · rintro ⟨inside, others⟩
    by_cases covers : block.Covers address
    · exact Or.inr covers
    · exact Or.inl ⟨inside, covers, others⟩

/-- A request is answered and keeps the balance, if a block that it gives back is lent. -/
theorem Balanced.serve (balanced : ledger.Balanced limit) (small : limit ≤ Word.largest)
    (request : Request) (lent : ∀ block, request = .release block → block ∈ ledger.lent) :
    ∃ between, ledger.serve request = .ok between ∧ between.Balanced limit := by
  cases request with
  | allocate size =>
      cases given : ledger.space.allocate size with
      | none => exact ⟨ledger, by rw [Ledger.serve, given]; rfl, balanced⟩
      | some answer => exact ⟨_, by rw [Ledger.serve, given]; rfl, balanced.allocate small given⟩
  | release block =>
      have listed := lent block rfl
      rcases (balanced.perm (List.perm_cons_erase listed)).release small with
        ⟨after, released, afterBalanced⟩
      refine ⟨_, ?_, afterBalanced⟩
      simp only [Ledger.serve, released]
      rfl

/-- Honest requests are all answered and keep the balance. -/
theorem Balanced.serveAll (balanced : ledger.Balanced limit) (small : limit ≤ Word.largest)
    (honest : ledger.Honest requests) :
    ∃ result, ledger.serveAll requests = .ok result ∧ result.Balanced limit := by
  induction requests generalizing ledger with
  | nil => exact ⟨ledger, rfl, balanced⟩
  | cons request rest inductionHypothesis =>
      rcases balanced.serve small request
        (fun block same => honest [] block rest (by rw [same]; rfl) ledger rfl) with
        ⟨between, served, betweenBalanced⟩
      rcases inductionHypothesis betweenBalanced (honest.rest served) with
        ⟨result, rest, resultBalanced⟩
      exact ⟨result, serveAll_cons_eq_ok.mpr ⟨between, served, rest⟩, resultBalanced⟩

/-- Blocks that cover the same bytes leave the same spans. -/
theorem Balanced.spans_eq (balanced : ledger.Balanced limit) (otherBalanced : other.Balanced limit)
    (same : ∀ block, block.size ≠ 0 → (block ∈ ledger.lent ↔ block ∈ other.lent)) :
    ledger.space.spans = other.space.spans := by
  have positive : ∀ {block : Block} {address : Nat}, block.Covers address → block.size ≠ 0 := by
    rintro block address ⟨low, high⟩
    omega
  refine balanced.ordered.eq_of_covered otherBalanced.ordered ?_
  intro address
  rw [← FreeSpace.Free, ← FreeSpace.Free, balanced.exact, otherBalanced.exact]
  refine and_congr_right fun _ => ?_
  constructor
  · intro uncovered block member covers
    exact uncovered block ((same block (positive covers)).mpr member) covers
  · intro uncovered block member covers
    exact uncovered block ((same block (positive covers)).mp member) covers

/-- All lent blocks can be given back, in whatever order. -/
theorem Balanced.release_all {order : List Block} (balanced : ledger.Balanced limit)
    (small : limit ≤ Word.largest) (all : order.Perm ledger.lent) :
    ∃ settled, ledger.serveAll (order.map .release) = .ok settled ∧ settled.lent = [] ∧
      settled.Balanced limit := by
  induction order generalizing ledger with
  | nil => exact ⟨ledger, rfl, all.nil_eq.symm, balanced⟩
  | cons first rest inductionHypothesis =>
      rcases List.cons_perm_iff_perm_erase.mp all with ⟨lent, others⟩
      rcases (balanced.perm (List.perm_cons_erase lent)).release small with
        ⟨space, released, betweenBalanced⟩
      rcases inductionHypothesis betweenBalanced others with ⟨settled, served, settledBalanced⟩
      refine ⟨settled, serveAll_cons_eq_ok.mpr ⟨_, ?_, served⟩, settledBalanced⟩
      simp only [Ledger.serve, released]
      rfl

/-! ## The spans of a ledger -/

/-- The free spans are the gaps between the lent blocks, in address order and never
touching; the lent blocks lie apart from each other in the address space; and every
address that either of them needs is a word. -/
structure KeepsGaps (limit : Nat) (ledger : Ledger) : Prop where
  gaps : ∀ span, span ∈ ledger.space.spans ↔ FreeSpace.IsGap (Vacant limit ledger.lent) span
  sorted : ledger.space.spans.Pairwise fun first second => first.stop < second.start
  apart : ledger.lent.Pairwise fun first second => ¬ first.Meets second
  inside : ∀ block ∈ ledger.lent, block.offset + block.size ≤ limit
  words : limit ≤ Word.largest ∧ ∀ span ∈ ledger.space.spans, span.stop ≤ limit

theorem Balanced.keepsGaps (balanced : ledger.Balanced limit) (small : limit ≤ Word.largest) :
    ledger.KeepsGaps limit where
  gaps := balanced.ordered.mem_iff_isGap balanced.exact
  sorted := balanced.ordered.apart
  apart := balanced.apart
  inside := balanced.inside
  words := by
    refine ⟨small, fun span member => ?_⟩
    have nonempty := balanced.ordered.nonempty span member
    have last : ledger.space.Free (span.stop - 1) := ⟨span, member, by omega, by omega⟩
    have := ((balanced.exact _).mp last).1
    omega

/-- Requests that give back only what is lent are all answered, and leave the gaps between
the lent blocks as the free spans.  Any other such requests that leave the same blocks lent
leave the same spans.  Giving everything back, in any order, leaves the spans of the
beginning. -/
theorem exists_serveAll_keepsGaps (fits : ∀ size, capacity = some size → size ≤ Word.largest)
    (honest : (opened capacity).Honest requests) :
    ∃ ledger, (opened capacity).serveAll requests = .ok ledger ∧
      ledger.KeepsGaps (FreeSpace.extent capacity) ∧
      (∀ otherRequests other, (opened capacity).Honest otherRequests →
        (opened capacity).serveAll otherRequests = .ok other →
        (∀ block, block.size ≠ 0 → (block ∈ ledger.lent ↔ block ∈ other.lent)) →
        ledger.space.spans = other.space.spans) ∧
      ∀ order : List Block, order.Perm ledger.lent →
        ∃ settled, ledger.serveAll (order.map .release) = .ok settled ∧ settled.lent = [] ∧
          settled.space.spans = (FreeSpace.ofCapacity capacity).spans := by
  have small : FreeSpace.extent capacity ≤ Word.largest := by
    cases capacity with
    | none => exact Nat.le_refl _
    | some size => exact fits size rfl
  rcases balanced_opened.serveAll small honest with ⟨ledger, served, balanced⟩
  refine ⟨ledger, served, balanced.keepsGaps small, ?_, ?_⟩
  · intro otherRequests other otherHonest otherServed same
    rcases balanced_opened.serveAll small otherHonest with ⟨reached, otherReached, otherBalanced⟩
    rcases Except.ok.inj (otherServed.symm.trans otherReached) with rfl
    exact balanced.spans_eq otherBalanced same
  · intro order all
    rcases balanced.release_all small all with ⟨settled, released, empty, settledBalanced⟩
    refine ⟨settled, released, empty, settledBalanced.spans_eq balanced_opened ?_⟩
    intro block _
    rw [empty, opened]

/-- Eleven of sixteen bytes are lent and the first four come back.  The last request finds no
gap that is long enough. -/
theorem keepsGaps_sixteen :
    ∃ ledger, (opened (some 16)).serveAll
        [.allocate 4, .allocate 0, .allocate 2, .allocate 5, .release ⟨0, 4⟩, .allocate 7] =
        .ok ledger ∧
      ledger.space.spans = [⟨0, 4⟩, ⟨11, 16⟩] ∧
      ledger.KeepsGaps 16 := by
  have honest : (opened (some 16)).Honest
      [.allocate 4, .allocate 0, .allocate 2, .allocate 5, .release ⟨0, 4⟩, .allocate 7] := by
    have asks : ∀ (ledger : Ledger) size block,
        Request.allocate size = .release block → block ∈ ledger.lent := by
      rintro _ _ _ ⟨⟩
    refine .cons (asks _ 4) rfl (.cons (asks _ 0) rfl (.cons (asks _ 2) rfl (.cons (asks _ 5) rfl
      (.cons ?_ rfl (.cons (asks _ 7) rfl honest_nil)))))
    rintro block ⟨⟩
    decide
  rcases exists_serveAll_keepsGaps (by rintro size ⟨⟩; decide) honest with
    ⟨ledger, served, gaps, -⟩
  refine ⟨ledger, served, ?_, gaps⟩
  rcases Except.ok.inj served with rfl
  rfl

end Ledger

end TensorCompiler
