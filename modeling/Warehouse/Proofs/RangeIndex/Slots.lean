import Warehouse.Proofs.RangeIndex.Pages
import Warehouse.Proofs.RangeIndex.Ranges

/-! # Slots of the range map

Where a range has its entry is computed with words of four bytes. The same computations with
checked words, which fault as soon as a result is no word, come to the same, so that no step of
them runs over. Ranges and slots correspond one to one, and writing the entry of one range
changes neither that of another one nor anything else on its page. -/

namespace Warehouse

/-! ## Checked words -/

namespace Checked

/-- The sum of two words, unless it is too large for a word. -/
def add (first second : UInt32) : Except Fault UInt32 :=
  if first.toNat + second.toNat < UInt32.size then .ok (first + second) else .error .overflow

/-- The difference of two words, unless it is negative. -/
def sub (first second : UInt32) : Except Fault UInt32 :=
  if second.toNat ≤ first.toNat then .ok (first - second) else .error .overflow

/-- The product of two words, unless it is too large for a word. -/
def mul (first second : UInt32) : Except Fault UInt32 :=
  if first.toNat * second.toNat < UInt32.size then .ok (first * second) else .error .overflow

/-- The quotient of two words. -/
def div (first second : UInt32) : Except Fault UInt32 :=
  if second = 0 then .error .divisionByZero else .ok (first / second)

/-- The remainder of two words. -/
def mod (first second : UInt32) : Except Fault UInt32 :=
  if second = 0 then .error .divisionByZero else .ok (first % second)

variable {first second : UInt32}

theorem add_eq (fits : first.toNat + second.toNat < UInt32.size) : add first second = .ok (first + second) :=
  if_pos fits

theorem sub_eq (le : second.toNat ≤ first.toNat) : sub first second = .ok (first - second) :=
  if_pos le

theorem mul_eq (fits : first.toNat * second.toNat < UInt32.size) : mul first second = .ok (first * second) :=
  if_pos fits

theorem div_eq (ne : second ≠ 0) : div first second = .ok (first / second) :=
  if_neg ne

theorem mod_eq (ne : second ≠ 0) : mod first second = .ok (first % second) :=
  if_neg ne

end Checked

namespace RangeIndex.Addressing

variable {addressing : Addressing} {heapBlock start : BlockNumber}

/-! ## Checked computations of places -/

/-- The first block of a block sequence, computed with checked words. -/
def checkedSequenceStart (sequence : Nat) : Except Fault BlockNumber :=
  Checked.mul (UInt32.ofNat sequence) (UInt32.ofNat sequenceLength)

/-- How many whole ranges lie before the block, counted from `start` with checked words. -/
def checkedRanges (addressing : Addressing) (start heapBlock : BlockNumber) : Except Fault UInt32 := do
  Checked.div (← Checked.sub heapBlock start) addressing.pagesPerRange

/-- The block from which ranges are counted, computed with checked words. -/
def checkedOrigin (addressing : Addressing) (heapBlock : BlockNumber) : Except Fault BlockNumber :=
  if addressing.appendOnly then checkedSequenceStart (sequenceOf heapBlock) else .ok 0

/-- The first block of the block's range, computed with checked words. -/
def checkedRangeStart (addressing : Addressing) (heapBlock : BlockNumber) : Except Fault BlockNumber := do
  let start ← addressing.checkedOrigin heapBlock
  let ranges ← addressing.checkedRanges start heapBlock
  Checked.add start (← Checked.mul ranges addressing.pagesPerRange)

/-- The entry of the block's range within its page, computed with checked words. -/
def checkedEntryIndex (addressing : Addressing) (heapBlock : BlockNumber) : Except Fault Nat := do
  let start ← addressing.checkedOrigin heapBlock
  let ranges ← addressing.checkedRanges start heapBlock
  return (← Checked.mod ranges (UInt32.ofNat entriesPerPage)).toNat

/-- The page of a range, counted from one, computed with checked words. -/
def checkedPage (ranges : UInt32) : Except Fault UInt32 := do
  Checked.add (← Checked.div ranges (UInt32.ofNat entriesPerPage)) 1

/-- The range map page of a plain table, computed with checked words. -/
def checkedMapBlock (addressing : Addressing) (heapBlock : BlockNumber) : Except Fault BlockNumber := do
  checkedPage (← addressing.checkedRanges 0 heapBlock)

/-- The number of the range map page within its chain, computed with checked words. -/
def checkedLogicalPage (addressing : Addressing) (heapBlock : BlockNumber) : Except Fault UInt32 := do
  let start ← checkedSequenceStart (sequenceOf heapBlock)
  checkedPage (← addressing.checkedRanges start heapBlock)

theorem checkedSequenceStart_eq (heapBlock : BlockNumber) :
    checkedSequenceStart (sequenceOf heapBlock) = .ok (sequenceStart (sequenceOf heapBlock)) := by
  have bound := sequenceOf_lt heapBlock
  have product : (UInt32.ofNat (sequenceOf heapBlock)).toNat * (UInt32.ofNat sequenceLength).toNat < UInt32.size := by
    rw [UInt32.toNat_ofNat', UInt32.toNat_ofNat']
    simp only [sequenceCount, sequenceLength, UInt32.size] at *
    omega
  rw [checkedSequenceStart, Checked.mul_eq product, sequenceStart, UInt32.ofNat_mul]

theorem sequenceStart_le (heapBlock : BlockNumber) :
    (sequenceStart (sequenceOf heapBlock)).toNat ≤ heapBlock.toNat := by
  have le := Addressing.origin_le ⟨1, true⟩ heapBlock
  exact le

theorem checkedOrigin_eq (addressing : Addressing) (heapBlock : BlockNumber) :
    addressing.checkedOrigin heapBlock = .ok (addressing.origin heapBlock) := by
  rw [checkedOrigin, origin]
  split
  · exact checkedSequenceStart_eq heapBlock
  · rfl

/-- Ranges are counted without running over, from any block that is not behind. -/
theorem checkedRanges_eq (divisible : addressing.pagesPerRange ≠ 0) (le : start.toNat ≤ heapBlock.toNat) :
    addressing.checkedRanges start heapBlock = .ok ((heapBlock - start) / addressing.pagesPerRange) := by
  rw [checkedRanges, Checked.sub_eq le]
  exact Checked.div_eq divisible

theorem rangesFrom_eq (divisible : addressing.pagesPerRange ≠ 0) (start heapBlock : BlockNumber) :
    addressing.rangesFrom start heapBlock = .ok ((heapBlock - start) / addressing.pagesPerRange) :=
  if_neg divisible

theorem checkedPage_eq (ranges : UInt32) :
    checkedPage ranges = .ok (ranges / UInt32.ofNat entriesPerPage + 1) := by
  have small := ranges.toNat_lt
  have fits : (ranges / UInt32.ofNat entriesPerPage).toNat + (1 : UInt32).toNat < UInt32.size := by
    have quotient := Nat.div_le_self ranges.toNat entriesPerPage
    rw [UInt32.toNat_div, UInt32.toNat_ofNat', Nat.mod_eq_of_lt (by decide), UInt32.toNat_one]
    simp only [entriesPerPage, UInt32.size] at *
    omega
  rw [checkedPage, Checked.div_eq (by decide)]
  exact Checked.add_eq fits

theorem ne_zero_of_valid (valid : addressing.Valid) : addressing.pagesPerRange ≠ 0 := by
  intro zero
  have positive := valid.positive
  rw [zero] at positive
  exact absurd positive (by decide)

/-- All computations for a table block come to the same with checked words: none of their steps runs
over or divides by zero. -/
structure Exact (addressing : Addressing) (heapBlock : BlockNumber) : Prop where
  sequenceStart : checkedSequenceStart (sequenceOf heapBlock) = .ok (sequenceStart (sequenceOf heapBlock))
  rangeStart : ∃ start, addressing.checkedRangeStart heapBlock = .ok start ∧
    addressing.rangeStart heapBlock = .ok start
  entryIndex : ∃ index, addressing.checkedEntryIndex heapBlock = .ok index ∧
    addressing.entryIndex heapBlock = .ok index
  mapBlock : ∃ block, addressing.checkedMapBlock heapBlock = .ok block ∧
    addressing.mapBlock heapBlock = .ok block
  logicalPage : ∃ number, addressing.checkedLogicalPage heapBlock = .ok number ∧
    addressing.logicalPage heapBlock = .ok number

theorem checkedRangeStart_eq (divisible : addressing.pagesPerRange ≠ 0) (heapBlock : BlockNumber) :
    ∃ start, addressing.checkedRangeStart heapBlock = .ok start ∧ addressing.rangeStart heapBlock = .ok start := by
  have le := addressing.origin_le heapBlock
  have small := heapBlock.toNat_lt
  -- the whole ranges before the block are no longer than the distance to the block
  have length : ((heapBlock - addressing.origin heapBlock) / addressing.pagesPerRange).toNat *
      addressing.pagesPerRange.toNat ≤ heapBlock.toNat - (addressing.origin heapBlock).toNat := by
    rw [UInt32.toNat_div, UInt32.toNat_sub_of_le _ _ (UInt32.le_iff_toNat_le.mpr le)]
    exact Nat.div_mul_le_self _ _
  have product : ((heapBlock - addressing.origin heapBlock) / addressing.pagesPerRange).toNat *
      addressing.pagesPerRange.toNat < UInt32.size := by
    simp only [UInt32.size]
    omega
  refine ⟨addressing.origin heapBlock +
    (heapBlock - addressing.origin heapBlock) / addressing.pagesPerRange * addressing.pagesPerRange, ?_, ?_⟩
  · simp only [checkedRangeStart, checkedOrigin_eq, checkedRanges_eq divisible le, bind, Except.bind,
      Checked.mul_eq product]
    apply Checked.add_eq
    rw [UInt32.toNat_mul, Nat.mod_eq_of_lt product]
    simp only [UInt32.size]
    omega
  · simp only [rangeStart, rangesFrom_eq divisible, bind, Except.bind, pure, Except.pure]

theorem checkedEntryIndex_eq (divisible : addressing.pagesPerRange ≠ 0) (heapBlock : BlockNumber) :
    ∃ index, addressing.checkedEntryIndex heapBlock = .ok index ∧ addressing.entryIndex heapBlock = .ok index := by
  have le := addressing.origin_le heapBlock
  refine ⟨((heapBlock - addressing.origin heapBlock) / addressing.pagesPerRange).toNat % entriesPerPage, ?_, ?_⟩
  · have divisor : UInt32.ofNat entriesPerPage ≠ 0 := by decide
    simp only [checkedEntryIndex, checkedOrigin_eq, checkedRanges_eq divisible le, bind, Except.bind,
      Checked.mod_eq divisor, pure, Except.pure, UInt32.toNat_mod]
    rfl
  · simp only [entryIndex, rangesFrom_eq divisible, bind, Except.bind, pure, Except.pure]

theorem checkedMapBlock_eq (divisible : addressing.pagesPerRange ≠ 0) (heapBlock : BlockNumber) :
    ∃ block, addressing.checkedMapBlock heapBlock = .ok block ∧ addressing.mapBlock heapBlock = .ok block := by
  have le : (0 : UInt32).toNat ≤ heapBlock.toNat := Nat.zero_le _
  refine ⟨(heapBlock - 0) / addressing.pagesPerRange / UInt32.ofNat entriesPerPage + 1, ?_, ?_⟩
  · simp only [checkedMapBlock, checkedRanges_eq divisible le, bind, Except.bind, checkedPage_eq]
  · simp only [mapBlock, rangesFrom_eq divisible, bind, Except.bind, pure, Except.pure]

/-- The page of the range map is computed without running over, from any start that is not behind. -/
theorem checkedPageFrom_eq (divisible : addressing.pagesPerRange ≠ 0) (le : start.toNat ≤ heapBlock.toNat) :
    (Except.ok start >>= fun start => addressing.checkedRanges start heapBlock >>= checkedPage) =
      .ok ((heapBlock - start) / addressing.pagesPerRange / UInt32.ofNat entriesPerPage + 1) := by
  simp only [checkedRanges_eq divisible le, bind, Except.bind, checkedPage_eq]

theorem checkedLogicalPage_eq (divisible : addressing.pagesPerRange ≠ 0) (heapBlock : BlockNumber) :
    ∃ number, addressing.checkedLogicalPage heapBlock = .ok number ∧ addressing.logicalPage heapBlock = .ok number := by
  refine ⟨(heapBlock - sequenceStart (sequenceOf heapBlock)) / addressing.pagesPerRange /
    UInt32.ofNat entriesPerPage + 1, ?_, ?_⟩
  · have steps : addressing.checkedLogicalPage heapBlock = (checkedSequenceStart (sequenceOf heapBlock) >>=
        fun start => addressing.checkedRanges start heapBlock >>= checkedPage) := rfl
    rw [steps, checkedSequenceStart_eq]
    exact checkedPageFrom_eq divisible (sequenceStart_le heapBlock)
  · simp only [logicalPage, rangesFrom_eq divisible, bind, Except.bind, pure, Except.pure]

theorem exact_of_ne_zero (divisible : addressing.pagesPerRange ≠ 0) (heapBlock : BlockNumber) :
    addressing.Exact heapBlock where
  sequenceStart := checkedSequenceStart_eq heapBlock
  rangeStart := checkedRangeStart_eq divisible heapBlock
  entryIndex := checkedEntryIndex_eq divisible heapBlock
  mapBlock := checkedMapBlock_eq divisible heapBlock
  logicalPage := checkedLogicalPage_eq divisible heapBlock

/-! ## Ranges and slots -/

/-- The two table blocks have the same slot: the same entry on the same page of the range map. In an
append-only table that is a page of the chain of their sequence. -/
def SameSlot (addressing : Addressing) (first second : BlockNumber) : Prop :=
  addressing.entryIndex first = addressing.entryIndex second ∧
    if addressing.appendOnly then
      sequenceOf first = sequenceOf second ∧ addressing.logicalPage first = addressing.logicalPage second
    else addressing.mapBlock first = addressing.mapBlock second

/-- A block belongs to a range: the range starts at the block or before it, has a start of its own,
lies in one block sequence, and ends behind the block. -/
structure Covered (addressing : Addressing) (heapBlock start : BlockNumber) : Prop where
  starts : addressing.rangeStart heapBlock = .ok start
  again : addressing.rangeStart start = .ok start
  sequence : addressing.appendOnly = true → sequenceOf start = sequenceOf heapBlock
  from_start : start.toNat ≤ heapBlock.toNat
  below_end : heapBlock.toNat < start.toNat + addressing.pagesPerRange.toNat

theorem covered_start (valid : addressing.Valid) (heapBlock : BlockNumber) :
    addressing.Covered heapBlock (addressing.start heapBlock) where
  starts := rangeStart_eq valid heapBlock
  again := by
    rw [rangeStart_eq valid, isStart_start valid heapBlock]
  sequence chained := sequenceOf_start chained heapBlock
  from_start := by
    have le := addressing.rangeNumber_mul_le heapBlock
    have origin := addressing.origin_le heapBlock
    rw [start_toNat]
    omega
  below_end := by
    have origin := addressing.origin_le heapBlock
    have rest := Nat.mod_lt (heapBlock.toNat - (addressing.origin heapBlock).toNat) valid.positive
    have split := Nat.div_add_mod' (heapBlock.toNat - (addressing.origin heapBlock).toNat)
      addressing.pagesPerRange.toNat
    rw [start_toNat, rangeNumber]
    omega

/-- Blocks of one range have the same slot, and blocks of different ranges do not. -/
theorem sameSlot_iff (valid : addressing.Valid) (first second : BlockNumber) :
    addressing.SameSlot first second ↔ addressing.start first = addressing.start second := by
  rw [SameSlot, entryIndex_eq valid, entryIndex_eq valid, Except.ok.injEq]
  constructor
  · rintro ⟨slot, place⟩
    cases chained : addressing.appendOnly with
    | false =>
        rw [if_neg (by rw [chained]; decide), mapBlock_eq valid chained, mapBlock_eq valid chained] at place
        refine start_eq_start (fun chained' => ?_) (Except.ok.inj place) slot
        exact absurd (chained.symm.trans chained') (by decide)
    | true =>
        rw [if_pos chained, logicalPage_eq valid chained, logicalPage_eq valid chained] at place
        exact start_eq_start (fun _ => place.1) (Except.ok.inj place.2) slot
  · intro same
    have slot : addressing.slot first = addressing.slot second := by
      rw [← slot_start valid first, same, slot_start valid]
    have target : addressing.target first = addressing.target second := by
      rw [← target_start valid first, same, target_start valid]
    refine ⟨slot, ?_⟩
    cases chained : addressing.appendOnly with
    | false =>
        rw [if_neg (by decide), mapBlock_eq valid chained, mapBlock_eq valid chained, target]
    | true =>
        rw [if_pos rfl, logicalPage_eq valid chained, logicalPage_eq valid chained, target]
        refine ⟨?_, rfl⟩
        rw [← sequenceOf_start chained first, same, sequenceOf_start chained]

/-- What writing an entry does to a page: the entry is read back, all other ones are read as before,
and the header and the special area are as they were. -/
structure Writes (index : Nat) (pointer : ItemPointer) (page after : Page) : Prop where
  written : entry after index = .ok (if pointer.offset = 0 then .invalid else pointer)
  others : ∀ other, other ≠ index → entry after other = entry page other
  header : Page.SameOn 0 headerSize after page
  special : Page.SameOn (pageSize - specialSize) pageSize after page

theorem writes_withEntry {index : Nat} (bound : index < entriesPerPage) (pointer : ItemPointer) (page : Page) :
    Writes index pointer page (withEntry page index pointer) where
  written := by
    rw [entry_eq _ bound, entryAt_withEntry_same page bound pointer]
    by_cases none : pointer.offset = 0
    · simp [ItemPointer.isValid, none]
    · simp [ItemPointer.isValid, none]
  others other ne := by
    have apart : entryPos other + entrySize ≤ entryPos index ∨ entryPos index + entrySize ≤ entryPos other := by
      simp only [entryPos, entrySize]
      omega
    rw [entry, entry, (sameOn_withEntry page bound pointer apart).fetch_eq (Nat.le_refl _) (Nat.le_refl _)]
  header := (withEntry_frame page bound pointer).1
  special := (withEntry_frame page bound pointer).2

/-- Ranges of table blocks and slots of the range map correspond one to one. No step of the computations
runs over or divides by zero, every block lies in the range that is computed for it, two blocks have the
same slot just if they have the same range, and on any page the entry of a range can be written without
touching what else is there. -/
theorem slots_match_ranges {addressing : Addressing}
    (bounds : 1 ≤ addressing.pagesPerRange.toNat ∧ addressing.pagesPerRange.toNat ≤ maxPagesPerRange) :
    (∀ heapBlock, addressing.Exact heapBlock) ∧
    (∀ heapBlock, ∃ start, addressing.Covered heapBlock start) ∧
    (∀ heapBlock, ∃ index < 5454, addressing.entryIndex heapBlock = .ok index) ∧
    (∀ first second, addressing.SameSlot first second ↔ addressing.rangeStart first = addressing.rangeStart second) ∧
    ∀ page heapBlock pointer, ∃ index after, addressing.entryIndex heapBlock = .ok index ∧
      setEntryFor page addressing heapBlock pointer = .ok after ∧ Writes index pointer page after := by
  have valid : addressing.Valid := ⟨bounds.1, bounds.2⟩
  have divisible : addressing.pagesPerRange ≠ 0 := ne_zero_of_valid valid
  refine ⟨exact_of_ne_zero divisible, fun heapBlock => ⟨_, covered_start valid heapBlock⟩, ?_, ?_, ?_⟩
  · intro heapBlock
    exact ⟨addressing.slot heapBlock, addressing.slot_lt heapBlock, entryIndex_eq valid heapBlock⟩
  · intro first second
    rw [sameSlot_iff valid, rangeStart_eq valid, rangeStart_eq valid, Except.ok.injEq]
  · intro page heapBlock pointer
    have index := entryIndex_eq valid heapBlock
    have bound := addressing.slot_lt heapBlock
    exact ⟨_, _, index, setEntryFor_eq page pointer index bound, writes_withEntry bound pointer page⟩

/-- Ranges of three blocks do not divide the second block sequence of an append-only table evenly. Its
first blocks and the last one of the sequence before have different slots, as they have different ranges. -/
theorem slots_match_ranges_sequence : (1 ≤ (3 : UInt32).toNat ∧ (3 : UInt32).toNat ≤ maxPagesPerRange) ∧
    Addressing.SameSlot ⟨3, true⟩ 33554432 33554434 ∧ ¬ Addressing.SameSlot ⟨3, true⟩ 33554431 33554432 := by
  have bounds : 1 ≤ (3 : UInt32).toNat ∧ (3 : UInt32).toNat ≤ maxPagesPerRange := by decide
  obtain ⟨-, -, -, same, -⟩ := @slots_match_ranges ⟨3, true⟩ bounds
  refine ⟨bounds, (same _ _).mpr (by decide), fun slot => ?_⟩
  exact absurd ((same _ _).mp slot) (by decide)

end RangeIndex.Addressing

end Warehouse
