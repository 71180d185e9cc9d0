import Mathlib.Algebra.Group.Nat.Defs
import Mathlib.Data.List.Perm.Subperm
import Mathlib.Tactic.Common
import TensorCompiler.Proofs.Schedule.Buffers
import TensorCompiler.Schedule.Encoding

namespace TensorCompiler

/-!
# Handing a schedule over

A reader is exact for a way of writing if it accepts just those bytes that begin
with something written, and then gives back what was written and the bytes after
it.  Readers of numbers are exact, and exactness passes from the parts of a record
to the record and from the entries of a list to the list.  It says at once that
what was written can be read, that nothing shorter can be, and that what was read
would be written the same way.

Reading a schedule ends with a step that is not exact.  The buffers may be listed
in any order and under any keys, while the table that is made of them has each key
once and in increasing order.  What stands in the bytes is called a listing here;
listings are read exactly, and a listing with increasing keys is that of the
schedule it is read as.
-/

namespace ByteReader

variable {α β : Type} {bytes rest : List UInt8}

@[simp] theorem bind_eq_some {first : ByteReader α} {next : α → ByteReader β} {value : β} :
    (first >>= next) bytes = some (value, rest) ↔
      ∃ item between, first bytes = some (item, between) ∧
        next item between = some (value, rest) := by
  change (first bytes).bind (fun step => next step.1 step.2) = _ ↔ _
  rw [Option.bind_eq_some_iff, Prod.exists]

@[simp] theorem pure_eq_some {value result : α} :
    (pure value : ByteReader α) bytes = some (result, rest) ↔ value = result ∧ bytes = rest := by
  change some (value, bytes) = _ ↔ _
  rw [Option.some.injEq, Prod.mk.injEq]

@[simp] theorem failure_ne_some {result : α} :
    (failure : ByteReader α) bytes ≠ some (result, rest) := by
  intro impossible
  cases impossible

/-- A reader takes from some bytes exactly what stands written at their front. -/
def Exact (reader : ByteReader α) (write : α → List UInt8) (fits : α → Prop) : Prop :=
  ∀ bytes value rest, reader bytes = some (value, rest) ↔ fits value ∧ bytes = write value ++ rest

section

variable {reader : ByteReader α} {write : α → List UInt8} {fits : α → Prop}

theorem Exact.read (exact : Exact reader write fits) {value : α} (fitting : fits value)
    (rest : List UInt8) : reader (write value ++ rest) = some (value, rest) :=
  (exact _ value rest).mpr ⟨fitting, rfl⟩

/-- Bytes that break off inside what was written cannot be read. -/
theorem Exact.eq_none_of_prefix (exact : Exact reader write fits) {value : α}
    (fitting : fits value) (begins : bytes <+: write value) (breaksOff : bytes ≠ write value) :
    reader bytes = none := by
  rw [Option.eq_none_iff_forall_ne_some]
  rintro ⟨other, left⟩ found
  rcases begins with ⟨missing, whole⟩
  rcases (exact bytes other left).mp found with ⟨otherFits, rfl⟩
  -- Reading goes no further than what it has found, whatever follows.
  have again : reader (write value) = some (other, left ++ missing) := by
    rw [← whole, List.append_assoc]
    exact exact.read otherFits _
  have complete : reader (write value) = some (value, []) := by
    have read := exact.read fitting []
    rwa [List.append_nil] at read
  rcases Prod.mk.inj (Option.some.inj (again.symm.trans complete)) with ⟨-, nothing⟩
  rw [(List.append_eq_nil_iff.mp nothing).2, List.append_nil] at whole
  exact breaksOff whole

end

/-! ## Numbers -/

theorem byte_eq_some {value : UInt8} : byte bytes = some (value, rest) ↔ bytes = value :: rest := by
  cases bytes with
  | nil => simp [byte]
  | cons head tail => simp [byte]

theorem exact_number (width : Nat) :
    Exact (number width) (Bytes.number width) fun n => n < 256 ^ width := by
  induction width with
  | zero =>
      intro bytes value rest
      simp only [number, Bytes.number, pure_eq_some, List.nil_append, Nat.pow_zero, Nat.lt_one_iff]
      rw [eq_comm (a := 0)]
  | succ width inductionHypothesis =>
      intro bytes value rest
      simp only [number, Bytes.number, bind_eq_some, pure_eq_some, byte_eq_some,
        inductionHypothesis _ _ _, List.cons_append]
      constructor
      · rintro ⟨low, _, rfl, high, _, ⟨fits, rfl⟩, rfl, rfl⟩
        have small : low.toNat < 256 := low.toNat_lt
        have quotient : (low.toNat + 256 * high) / 256 = high := by omega
        have remainder : UInt8.ofNat (low.toNat + 256 * high) = low := by
          apply UInt8.toNat_inj.mp
          rw [UInt8.toNat_ofNat']
          omega
        rw [quotient, remainder, Nat.pow_succ]
        exact ⟨by omega, rfl⟩
      · rintro ⟨fits, rfl⟩
        rw [Nat.pow_succ] at fits
        refine ⟨_, _, rfl, value / 256, _, ⟨?_, rfl⟩, ?_, rfl⟩
        · omega
        · rw [UInt8.toNat_ofNat']
          omega

theorem exact_word : Exact word Bytes.word fun n => n ≤ Word.largest := by
  intro bytes value rest
  rw [word, Bytes.word, exact_number 8 bytes value rest]
  exact and_congr_left fun _ => Nat.lt_succ_iff

theorem exact_flag : Exact flag Bytes.flag fun _ => True := by
  intro bytes value rest
  simp only [flag, bind_eq_some, byte_eq_some, Bytes.flag, true_and]
  constructor
  · rintro ⟨head, tail, rfl, done⟩
    rw [← UInt8.ofNat_toNat (x := head)]
    generalize head.toNat = n at done
    match n with
    | 0 | 1 =>
        rcases pure_eq_some.mp done with ⟨rfl, rfl⟩
        rfl
    | n + 2 => exact absurd done failure_ne_some
  · rintro rfl
    refine ⟨_, _, rfl, ?_⟩
    cases value with
    | false => rfl
    | true => rfl

/-! ## Lists -/

section

variable {entry : ByteReader α} {write : α → List UInt8} {fits : α → Prop}

theorem exact_many (exact : Exact entry write fits) (count : Nat) :
    Exact (many entry count) (·.flatMap write)
      fun items => items.length = count ∧ ∀ item ∈ items, fits item := by
  induction count with
  | zero =>
      intro bytes items rest
      simp only [many, pure_eq_some, List.length_eq_zero_iff]
      constructor
      · rintro ⟨rfl, rfl⟩
        exact ⟨⟨rfl, fun item member => absurd member List.not_mem_nil⟩, rfl⟩
      · rintro ⟨⟨rfl, _⟩, rfl⟩
        exact ⟨rfl, rfl⟩
  | succ count inductionHypothesis =>
      intro bytes items rest
      simp only [many, bind_eq_some, pure_eq_some, exact _ _ _, inductionHypothesis _ _ _]
      constructor
      · rintro ⟨head, _, ⟨headFits, rfl⟩, tail, _, ⟨⟨rfl, tailFits⟩, rfl⟩, rfl, rfl⟩
        refine ⟨⟨rfl, List.forall_mem_cons.mpr ⟨headFits, tailFits⟩⟩, ?_⟩
        rw [List.flatMap_cons, List.append_assoc]
      · rintro ⟨⟨length, allFit⟩, rfl⟩
        rcases List.exists_cons_of_length_eq_add_one length with ⟨head, tail, rfl⟩
        rcases List.forall_mem_cons.mp allFit with ⟨headFits, tailFits⟩
        refine ⟨head, _, ⟨headFits, ?_⟩, tail, rest, ⟨⟨Nat.succ.inj length, tailFits⟩, rfl⟩, rfl,
          rfl⟩
        rw [List.flatMap_cons, List.append_assoc]

theorem exact_counted (exact : Exact entry write fits) :
    Exact (counted entry) (Bytes.counted write)
      fun items => items.length ≤ Word.largest ∧ ∀ item ∈ items, fits item := by
  intro bytes items rest
  simp only [counted, Bytes.counted, bind_eq_some, exact_word _ _ _, exact_many exact _ _ _ _]
  constructor
  · rintro ⟨_, _, ⟨short, rfl⟩, ⟨rfl, allFit⟩, rfl⟩
    exact ⟨⟨short, allFit⟩, (List.append_assoc _ _ _).symm⟩
  · rintro ⟨⟨short, allFit⟩, rfl⟩
    exact ⟨items.length, _, ⟨short, List.append_assoc _ _ _⟩, ⟨rfl, allFit⟩, rfl⟩

end

end ByteReader

/-! ## Parts of a schedule -/

/-- Both numbers of an outlet are words. -/
structure Outlet.WordSized (outlet : Outlet) : Prop where
  node : outlet.node ≤ Word.largest
  index : outlet.index ≤ Word.largest

/-- All numbers of a buffer are words. -/
structure Buffer.WordSized (buffer : Buffer) : Prop where
  outlet : buffer.outlet.WordSized
  offset : buffer.block.offset ≤ Word.largest
  size : buffer.block.size ≤ Word.largest
  first : buffer.first ≤ Word.largest
  last : buffer.last ≤ Word.largest

def PerKind.WordSized (table : PerKind Nat) : Prop :=
  ∀ kind, table.get kind ≤ Word.largest

open ByteReader (Exact exact_word exact_number exact_flag exact_counted bind_eq_some pure_eq_some
  failure_ne_some)

theorem Outlet.exact_reader : Exact reader encode WordSized := by
  intro bytes outlet rest
  simp only [reader, encode, bind_eq_some, pure_eq_some, exact_word _ _ _, List.append_assoc]
  constructor
  · rintro ⟨node, _, ⟨nodeFits, rfl⟩, index, _, ⟨indexFits, rfl⟩, rfl, rfl⟩
    exact ⟨⟨nodeFits, indexFits⟩, rfl⟩
  · rintro ⟨⟨nodeFits, indexFits⟩, rfl⟩
    exact ⟨_, _, ⟨nodeFits, rfl⟩, _, _, ⟨indexFits, rfl⟩, rfl, rfl⟩

theorem MemoryKind.ofCode?_eq_some {code : Nat} {kind : MemoryKind} :
    ofCode? code = some kind ↔ code = kind.code := by
  constructor
  · intro found
    unfold ofCode? at found
    split at found <;> cases found <;> rfl
  · rintro rfl
    cases kind <;> rfl

theorem MemoryKind.exact_reader : Exact reader encode fun _ => True := by
  intro bytes kind rest
  simp only [reader, encode, bind_eq_some, exact_number 4 _ _ _, true_and]
  constructor
  · rintro ⟨code, _, ⟨_, rfl⟩, done⟩
    cases known : ofCode? code with
    | none =>
        rw [known] at done
        exact absurd done failure_ne_some
    | some found =>
        rw [known] at done
        rcases pure_eq_some.mp done with ⟨rfl, rfl⟩
        rw [ofCode?_eq_some.mp known]
  · rintro rfl
    have small : kind.code < 256 ^ 4 := by cases kind <;> decide
    refine ⟨kind.code, rest, ⟨small, rfl⟩, ?_⟩
    rw [ofCode?_eq_some.mpr rfl]
    rfl

theorem Buffer.exact_reader : Exact reader encode WordSized := by
  intro bytes buffer rest
  simp only [reader, encode, bind_eq_some, pure_eq_some, Outlet.exact_reader _ _ _,
    MemoryKind.exact_reader _ _ _, exact_word _ _ _, exact_flag _ _ _, true_and, List.append_assoc]
  constructor
  · rintro ⟨outlet, _, ⟨outletFits, rfl⟩, kind, _, rfl, offset, _, ⟨offsetFits, rfl⟩, size, _,
      ⟨sizeFits, rfl⟩, first, _, ⟨firstFits, rfl⟩, last, _, ⟨lastFits, rfl⟩, pinned, _, rfl, rfl,
      rfl⟩
    exact ⟨⟨outletFits, offsetFits, sizeFits, firstFits, lastFits⟩, rfl⟩
  · rintro ⟨⟨outletFits, offsetFits, sizeFits, firstFits, lastFits⟩, rfl⟩
    exact ⟨_, _, ⟨outletFits, rfl⟩, _, _, rfl, _, _, ⟨offsetFits, rfl⟩, _, _, ⟨sizeFits, rfl⟩, _, _,
      ⟨firstFits, rfl⟩, _, _, ⟨lastFits, rfl⟩, _, _, rfl, rfl, rfl⟩

theorem PerKind.exact_wordsReader : Exact wordsReader encodeWords WordSized := by
  intro bytes table rest
  simp only [wordsReader, encodeWords, bind_eq_some, pure_eq_some, exact_word _ _ _,
    List.append_assoc]
  constructor
  · rintro ⟨input, _, ⟨inputFits, rfl⟩, constant, _, ⟨constantFits, rfl⟩, main, _, ⟨mainFits, rfl⟩,
      accelerator, _, ⟨acceleratorFits, rfl⟩, rfl, rfl⟩
    refine ⟨fun kind => ?_, rfl⟩
    cases kind <;> assumption
  · rintro ⟨fits, rfl⟩
    exact ⟨_, _, ⟨fits .input, rfl⟩, _, _, ⟨fits .constant, rfl⟩, _, _, ⟨fits .main, rfl⟩, _, _,
      ⟨fits .accelerator, rfl⟩, rfl, rfl⟩

theorem Schedule.exact_entryReader : Exact entryReader encodeEntry
    fun entry => entry.1.WordSized ∧ entry.2.WordSized := by
  intro bytes entry rest
  simp only [entryReader, encodeEntry, bind_eq_some, pure_eq_some, Outlet.exact_reader _ _ _,
    Buffer.exact_reader _ _ _, List.append_assoc]
  constructor
  · rintro ⟨outlet, _, ⟨outletFits, rfl⟩, buffer, _, ⟨bufferFits, rfl⟩, rfl, rfl⟩
    exact ⟨⟨outletFits, bufferFits⟩, rfl⟩
  · rintro ⟨⟨outletFits, bufferFits⟩, rfl⟩
    exact ⟨_, _, ⟨outletFits, rfl⟩, _, _, ⟨bufferFits, rfl⟩, rfl, rfl⟩

/-! ## Tables of entries in order -/

namespace OutletMap

variable {α : Type}

theorem ext_entries {first second : OutletMap α} (same : first.entries = second.entries) :
    first = second := by
  cases first
  cases second
  cases same
  rfl

/-- An entry beyond all others goes to the end. -/
theorem insertEntry_of_last {key : Outlet} {value : α} {entries : List (Outlet × α)}
    (last : ∀ entry ∈ entries, entry.1 < key) :
    insertEntry key value entries = entries ++ [(key, value)] := by
  induction entries with
  | nil => rfl
  | cons head rest inductionHypothesis =>
      rcases List.forall_mem_cons.mp last with ⟨headLess, restLess⟩
      have notLess : ¬ key < head.1 := fun less =>
        Outlet.lt_irrefl key (Outlet.lt_trans less headLess)
      have different : key ≠ head.1 := fun same => Outlet.lt_irrefl key (same.symm ▸ headLess)
      rw [insertEntry, if_neg notLess, if_neg different, inductionHypothesis restLess]
      rfl

theorem entries_foldl_insert (map : OutletMap α) {entries : List (Outlet × α)}
    (increasing : (map.entries ++ entries).Pairwise fun first second => first.1 < second.1) :
    (entries.foldl (fun map entry => map.insert entry.1 entry.2) map).entries =
      map.entries ++ entries := by
  induction entries generalizing map with
  | nil => exact (List.append_nil _).symm
  | cons entry rest inductionHypothesis =>
      have last : ∀ other ∈ map.entries, other.1 < entry.1 := fun other member =>
        (List.pairwise_append.mp increasing).2.2 other member entry List.mem_cons_self
      have stored : (map.insert entry.1 entry.2).entries = map.entries ++ [entry] :=
        insertEntry_of_last last
      rw [List.append_cons] at increasing ⊢
      rw [List.foldl_cons, inductionHypothesis _ (stored ▸ increasing), stored]

/-- Increasing entries are those of the table made of them. -/
theorem entries_ofEntries {entries : List (Outlet × α)}
    (increasing : entries.Pairwise fun first second => first.1 < second.1) :
    (ofEntries entries).entries = entries :=
  entries_foldl_insert empty increasing

theorem ofEntries_entries (map : OutletMap α) : ofEntries map.entries = map :=
  ext_entries (entries_ofEntries map.increasing)

/-- A table made of entries has none but these. -/
theorem subset_ofEntries (entries : List (Outlet × α)) : (ofEntries entries).entries ⊆ entries := by
  suffices kept : ∀ (map : OutletMap α) (later : List (Outlet × α)),
      (later.foldl (fun map entry => map.insert entry.1 entry.2) map).entries ⊆
        map.entries ++ later from kept empty entries
  intro map later
  induction later generalizing map with
  | nil => simp
  | cons entry rest inductionHypothesis =>
      intro other member
      rcases List.mem_append.mp (inductionHypothesis _ member) with stored | inRest
      · have found := mem_entries.mp stored
        rw [get?_insert] at found
        split at found
        · next same =>
          have isEntry : other = entry := Prod.ext same (Option.some.inj found).symm
          simp [isEntry]
        · exact List.mem_append_left _ (mem_entries.mpr found)
      · exact List.mem_append_right _ (List.mem_cons_of_mem entry inRest)

theorem length_ofEntries_le (entries : List (Outlet × α)) :
    (ofEntries entries).entries.length ≤ entries.length := by
  have distinct : (ofEntries entries).entries.Nodup := by
    apply (ofEntries entries).increasing.imp
    rintro first _ less rfl
    exact Outlet.lt_irrefl first.1 less
  exact (List.subperm_of_subset distinct (subset_ofEntries entries)).length_le

end OutletMap

/-! ## Schedules -/

/-- What stands in the bytes of a schedule: the buffers are entries in the order in
which they are listed. -/
structure Listing where
  sequence : List Nat
  entries : List (Outlet × Buffer)
  highWater : PerKind Nat
  peakLive : PerKind Nat

namespace Listing

def encode (listing : Listing) : List UInt8 :=
  Bytes.counted Bytes.word listing.sequence ++
    Bytes.counted Schedule.encodeEntry listing.entries ++
    listing.highWater.encodeWords ++ listing.peakLive.encodeWords

def reader : ByteReader Listing := do
  let sequence ← ByteReader.counted ByteReader.word
  let entries ← ByteReader.counted Schedule.entryReader
  let highWater ← PerKind.wordsReader
  let peakLive ← PerKind.wordsReader
  return { sequence, entries, highWater, peakLive }

/-- The schedule that a listing is read as. -/
def schedule (listing : Listing) : Schedule :=
  { listing with buffers := .ofEntries listing.entries }

/-- The keys under which the buffers are listed. -/
def keys (listing : Listing) : List Outlet :=
  listing.entries.map Prod.fst

/-- All numbers of a listing are words, the numbers of steps and entries included. -/
structure WordSized (listing : Listing) : Prop where
  sequence : listing.sequence.length ≤ Word.largest ∧ ∀ id ∈ listing.sequence, id ≤ Word.largest
  entries : listing.entries.length ≤ Word.largest ∧
    ∀ entry ∈ listing.entries, entry.1.WordSized ∧ entry.2.WordSized
  highWater : listing.highWater.WordSized
  peakLive : listing.peakLive.WordSized

theorem exact_reader : Exact reader encode WordSized := by
  intro bytes listing rest
  simp only [reader, encode, bind_eq_some, pure_eq_some, exact_counted exact_word _ _ _,
    exact_counted Schedule.exact_entryReader _ _ _, PerKind.exact_wordsReader _ _ _,
    List.append_assoc]
  constructor
  · rintro ⟨sequence, _, ⟨sequenceFits, rfl⟩, entries, _, ⟨entriesFit, rfl⟩, highWater, _,
      ⟨marksFit, rfl⟩, peakLive, _, ⟨peaksFit, rfl⟩, rfl, rfl⟩
    exact ⟨⟨sequenceFits, entriesFit, marksFit, peaksFit⟩, rfl⟩
  · rintro ⟨⟨sequenceFits, entriesFit, marksFit, peaksFit⟩, rfl⟩
    exact ⟨_, _, ⟨sequenceFits, rfl⟩, _, _, ⟨entriesFit, rfl⟩, _, _, ⟨marksFit, rfl⟩, _, _,
      ⟨peaksFit, rfl⟩, rfl, rfl⟩

end Listing

namespace Schedule

/-- A schedule as it is written. -/
def listing (schedule : Schedule) : Listing :=
  { schedule with entries := schedule.buffers.entries }

/-- All numbers of a schedule are words, the numbers of steps and buffers included. -/
def WordSized (schedule : Schedule) : Prop :=
  schedule.listing.WordSized

theorem encode_eq (schedule : Schedule) : schedule.encode = schedule.listing.encode :=
  rfl

theorem schedule_listing (schedule : Schedule) : schedule.listing.schedule = schedule := by
  rcases schedule with ⟨sequence, buffers, highWater, peakLive⟩
  rw [Listing.schedule, listing, OutletMap.ofEntries_entries]

/-- A schedule is read as a listing first. -/
theorem reader_eq_some {schedule : Schedule} {bytes rest : List UInt8} :
    reader bytes = some (schedule, rest) ↔
      ∃ listing, Listing.reader bytes = some (listing, rest) ∧ listing.schedule = schedule := by
  simp only [reader, Listing.reader, bind_eq_some, pure_eq_some]
  constructor
  · rintro ⟨sequence, _, first, entries, _, second, highWater, _, third, peakLive, _, last, rfl,
      rfl⟩
    exact ⟨⟨sequence, entries, highWater, peakLive⟩,
      ⟨_, _, first, _, _, second, _, _, third, _, _, last, rfl, rfl⟩, rfl⟩
  · rintro ⟨_, ⟨_, _, first, _, _, second, _, _, third, _, _, last, rfl, rfl⟩, rfl⟩
    exact ⟨_, _, first, _, _, second, _, _, third, _, _, last, rfl, rfl⟩

theorem decode?_eq_some {schedule : Schedule} {bytes : List UInt8} :
    decode? bytes = some schedule ↔ ∃ rest, reader bytes = some (schedule, rest) := by
  rw [decode?, Option.map_eq_some_iff]
  constructor
  · rintro ⟨⟨_, rest⟩, found, rfl⟩
    exact ⟨rest, found⟩
  · rintro ⟨rest, found⟩
    exact ⟨_, found, rfl⟩

end Schedule

/-- Making a table of the entries leaves no number that is not a word. -/
theorem Listing.WordSized.schedule {listing : Listing} (sized : listing.WordSized) :
    listing.schedule.WordSized where
  sequence := sized.sequence
  entries := ⟨(OutletMap.length_ofEntries_le listing.entries).trans sized.entries.1,
    fun entry member => sized.entries.2 entry (OutletMap.subset_ofEntries _ member)⟩
  highWater := sized.highWater
  peakLive := sized.peakLive

namespace Schedule

/-- What is read consists of words. -/
theorem wordSized_of_reader {schedule : Schedule} {bytes rest : List UInt8}
    (found : reader bytes = some (schedule, rest)) : schedule.WordSized := by
  rcases reader_eq_some.mp found with ⟨listing, listed, rfl⟩
  exact ((Listing.exact_reader _ _ _).mp listed).1.schedule

theorem reader_encode {schedule : Schedule} (sized : schedule.WordSized) (rest : List UInt8) :
    reader (schedule.encode ++ rest) = some (schedule, rest) :=
  reader_eq_some.mpr
    ⟨schedule.listing, Listing.exact_reader.read sized rest, schedule_listing schedule⟩

theorem decode?_eq_none_of_prefix {schedule : Schedule} (sized : schedule.WordSized)
    {bytes : List UInt8} (begins : bytes <+: schedule.encode)
    (breaksOff : bytes ≠ schedule.encode) : decode? bytes = none := by
  rw [Option.eq_none_iff_forall_ne_some]
  intro other found
  rcases decode?_eq_some.mp found with ⟨rest, readOther⟩
  rcases reader_eq_some.mp readOther with ⟨listing, listed, -⟩
  have nothing := Listing.exact_reader.eq_none_of_prefix sized begins breaksOff
  cases nothing.symm.trans listed

theorem listing_schedule {listing : Listing} (increasing : listing.keys.Pairwise (· < ·)) :
    listing.schedule.listing = listing := by
  rcases listing with ⟨sequence, entries, highWater, peakLive⟩
  rw [Listing.schedule, Schedule.listing,
    OutletMap.entries_ofEntries (List.pairwise_map.mp increasing)]

/-- A listing is written again as it was read exactly if its keys increase. -/
theorem encode_schedule_iff {listing : Listing} (sized : listing.WordSized) :
    listing.schedule.encode = listing.encode ↔ listing.keys.Pairwise (· < ·) := by
  constructor
  · intro same
    -- Both listings are read from the same bytes, so they are the same.
    have read := Listing.exact_reader.read sized.schedule []
    have again := Listing.exact_reader.read sized []
    rw [← encode_eq, same] at read
    have listings : listing = listing.schedule.listing :=
      (Prod.mk.inj (Option.some.inj (again.symm.trans read))).1
    rw [listings]
    exact List.pairwise_map.mpr listing.schedule.buffers.increasing
  · intro increasing
    rw [encode_eq, listing_schedule increasing]

/-- Handing a schedule over.  A schedule is read back from its bytes as it was exactly
if all its numbers are words; bytes that break off before the end of such a schedule
are not read as anything; and if bytes are read as a schedule to their very end, then
this schedule is written as the same bytes exactly if the keys listed in them increase. -/
theorem handOff_exact :
    (∀ schedule : Schedule, decode? schedule.encode = some schedule ↔ schedule.WordSized) ∧
      (∀ schedule : Schedule, schedule.WordSized → ∀ bytes, bytes <+: schedule.encode →
        bytes ≠ schedule.encode → decode? bytes = none) ∧
      ∀ bytes schedule, reader bytes = some (schedule, []) →
        ∃ listing, Listing.reader bytes = some (listing, []) ∧ listing.schedule = schedule ∧
          (schedule.encode = bytes ↔ listing.keys.Pairwise (· < ·)) := by
  refine ⟨?_, fun schedule sized bytes => decode?_eq_none_of_prefix sized, ?_⟩
  · intro schedule
    rw [decode?_eq_some]
    constructor
    · rintro ⟨rest, found⟩
      exact wordSized_of_reader found
    · intro sized
      have found := reader_encode sized []
      rw [List.append_nil] at found
      exact ⟨[], found⟩
  · intro bytes schedule found
    rcases reader_eq_some.mp found with ⟨listing, listed, rfl⟩
    rcases (Listing.exact_reader _ _ _).mp listed with ⟨sized, spelled⟩
    rw [List.append_nil] at spelled
    refine ⟨listing, listed, rfl, ?_⟩
    rw [spelled]
    exact encode_schedule_iff sized

/-- Two buffers, the second of them empty and at the end of its memory. -/
def atTheEnd : Listing where
  sequence := [0, 1]
  entries := [(⟨0, 0⟩, ⟨⟨0, 0⟩, .input, ⟨0, 24⟩, 0, 1, true⟩),
    (⟨1, 0⟩, ⟨⟨1, 0⟩, .main, ⟨Word.largest, 0⟩, 1, 1, false⟩)]
  highWater := ⟨24, 0, Word.largest, 0⟩
  peakLive := ⟨24, 0, 0, 0⟩

/-- The same buffers listed the other way round. -/
def turnedRound : Listing :=
  { atTheEnd with entries := atTheEnd.entries.reverse }

/-- Listed in either order, the buffers are read as the same schedule.  It is written in
one of the two orders, and its bytes cannot be read once the last of them is missing. -/
theorem handOff_exact_atTheEnd :
    decode? atTheEnd.schedule.encode = some atTheEnd.schedule ∧
      decode? atTheEnd.schedule.encode.dropLast = none ∧
      reader atTheEnd.encode = some (atTheEnd.schedule, []) ∧
      atTheEnd.schedule.encode = atTheEnd.encode ∧
      reader turnedRound.encode = some (atTheEnd.schedule, []) ∧
      atTheEnd.schedule.encode ≠ turnedRound.encode := by
  rcases handOff_exact with ⟨readBack, breakOff, writeAgain⟩
  have straight : reader atTheEnd.encode = some (atTheEnd.schedule, []) := rfl
  have reversed : reader turnedRound.encode = some (atTheEnd.schedule, []) := rfl
  have sized : atTheEnd.schedule.WordSized := wordSized_of_reader straight
  refine ⟨(readBack _).mpr sized, ?_, straight, ?_, reversed, ?_⟩
  · exact breakOff _ sized _ (List.dropLast_prefix _) (by decide +kernel)
  · rcases writeAgain _ _ straight with ⟨listing, listed, -, increasing⟩
    have known : Listing.reader atTheEnd.encode = some (atTheEnd, []) := rfl
    rcases Option.some.inj (known.symm.trans listed) with ⟨rfl, _⟩
    exact increasing.mpr (by decide)
  · rcases writeAgain _ _ reversed with ⟨listing, listed, -, increasing⟩
    have known : Listing.reader turnedRound.encode = some (turnedRound, []) := rfl
    rcases Option.some.inj (known.symm.trans listed) with ⟨rfl, _⟩
    exact fun same => absurd (increasing.mp same) (by decide)

end Schedule
end TensorCompiler
