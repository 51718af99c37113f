import Mathlib
import Warehouse.RangeIndex.Addressing

/-! # Ranges of table blocks

Every table block lies in one range, which is named by its first block. The range has a
number within the table, or within its block sequence when the table is append-only, and
this number fixes the place of the range in the range map. `start_eq_start` says that two
ranges never have the same place. -/

namespace Warehouse.RangeIndex.Addressing

variable {addressing : Addressing}

/-- The rule is one that an index can be created with. -/
structure Valid (addressing : Addressing) : Prop where
  positive : 0 < addressing.pagesPerRange.toNat
  bounded : addressing.pagesPerRange.toNat ≤ maxPagesPerRange

/-- The number of the block's range, counted from zero. -/
def rangeNumber (addressing : Addressing) (heapBlock : BlockNumber) : Nat :=
  (heapBlock.toNat - (addressing.origin heapBlock).toNat) / addressing.pagesPerRange.toNat

/-- The first block of the block's range. -/
def start (addressing : Addressing) (heapBlock : BlockNumber) : BlockNumber :=
  UInt32.ofNat ((addressing.origin heapBlock).toNat +
    addressing.rangeNumber heapBlock * addressing.pagesPerRange.toNat)

/-- The entry of the block's range on its page of the range map. -/
def slot (addressing : Addressing) (heapBlock : BlockNumber) : Nat :=
  addressing.rangeNumber heapBlock % entriesPerPage

/-- The number of the range map page that has the entry of the block's range. For a plain
table it is the block of that page. -/
def target (addressing : Addressing) (heapBlock : BlockNumber) : UInt32 :=
  UInt32.ofNat (addressing.rangeNumber heapBlock / entriesPerPage + 1)

/-- The block is the first one of its range. -/
def IsStart (addressing : Addressing) (heapBlock : BlockNumber) : Prop :=
  addressing.start heapBlock = heapBlock

theorem origin_eq (addressing : Addressing) (heapBlock : BlockNumber) :
    (addressing.origin heapBlock).toNat =
      if addressing.appendOnly then sequenceOf heapBlock * sequenceLength else 0 := by
  have bound := sequenceOf_lt heapBlock
  simp only [origin]
  split
  · rw [sequenceStart, UInt32.toNat_ofNat']
    simp only [sequenceCount, sequenceLength] at *
    omega
  · rfl

theorem origin_le (addressing : Addressing) (heapBlock : BlockNumber) :
    (addressing.origin heapBlock).toNat ≤ heapBlock.toNat := by
  rw [origin_eq]
  split
  · exact Nat.div_mul_le_self _ _
  · exact Nat.zero_le _

theorem rangeNumber_mul_le (addressing : Addressing) (heapBlock : BlockNumber) :
    addressing.rangeNumber heapBlock * addressing.pagesPerRange.toNat ≤
      heapBlock.toNat - (addressing.origin heapBlock).toNat :=
  Nat.div_mul_le_self _ _

theorem rangeNumber_lt (addressing : Addressing) (heapBlock : BlockNumber) :
    addressing.rangeNumber heapBlock < 2 ^ 32 :=
  Nat.lt_of_le_of_lt (Nat.le_trans (Nat.div_le_self _ _) (Nat.sub_le _ _)) heapBlock.toNat_lt

theorem start_toNat (addressing : Addressing) (heapBlock : BlockNumber) :
    (addressing.start heapBlock).toNat = (addressing.origin heapBlock).toNat +
      addressing.rangeNumber heapBlock * addressing.pagesPerRange.toNat := by
  have := addressing.rangeNumber_mul_le heapBlock
  have := addressing.origin_le heapBlock
  have := heapBlock.toNat_lt
  rw [start, UInt32.toNat_ofNat']
  omega

theorem target_toNat (addressing : Addressing) (heapBlock : BlockNumber) :
    (addressing.target heapBlock).toNat = addressing.rangeNumber heapBlock / entriesPerPage + 1 := by
  have := addressing.rangeNumber_lt heapBlock
  rw [target, UInt32.toNat_ofNat']
  simp only [entriesPerPage]
  omega

theorem slot_lt (addressing : Addressing) (heapBlock : BlockNumber) :
    addressing.slot heapBlock < entriesPerPage :=
  Nat.mod_lt _ (by decide)

/-! ## The computations agree -/

theorem rangesFrom_origin (valid : addressing.Valid) (heapBlock : BlockNumber) :
    addressing.rangesFrom (addressing.origin heapBlock) heapBlock =
      .ok (UInt32.ofNat (addressing.rangeNumber heapBlock)) := by
  have positive : addressing.pagesPerRange ≠ 0 := by
    intro zero
    have := valid.positive
    rw [zero] at this
    exact absurd this (by decide)
  have small := addressing.rangeNumber_lt heapBlock
  have le : addressing.origin heapBlock ≤ heapBlock :=
    UInt32.le_iff_toNat_le.mpr (addressing.origin_le heapBlock)
  rw [rangesFrom, if_neg positive]
  refine congrArg Except.ok (UInt32.toNat_inj.mp ?_)
  rw [UInt32.toNat_div, UInt32.toNat_sub_of_le _ _ le, UInt32.toNat_ofNat',
    Nat.mod_eq_of_lt small, rangeNumber]

theorem rangeStart_eq (valid : addressing.Valid) (heapBlock : BlockNumber) :
    addressing.rangeStart heapBlock = .ok (addressing.start heapBlock) := by
  simp only [rangeStart, rangesFrom_origin valid, bind, Except.bind, pure, Except.pure, start,
    UInt32.ofNat_add, UInt32.ofNat_mul, UInt32.ofNat_toNat]

theorem entryIndex_eq (valid : addressing.Valid) (heapBlock : BlockNumber) :
    addressing.entryIndex heapBlock = .ok (addressing.slot heapBlock) := by
  have small := addressing.rangeNumber_lt heapBlock
  simp only [entryIndex, rangesFrom_origin valid, bind, Except.bind, pure, Except.pure, slot,
    UInt32.toNat_ofNat', Nat.mod_eq_of_lt small]

theorem target_eq (addressing : Addressing) (heapBlock : BlockNumber) :
    UInt32.ofNat (addressing.rangeNumber heapBlock) / UInt32.ofNat entriesPerPage + 1 =
      addressing.target heapBlock := by
  have small := addressing.rangeNumber_lt heapBlock
  refine UInt32.toNat_inj.mp ?_
  rw [target_toNat, UInt32.toNat_add, UInt32.toNat_div, UInt32.toNat_ofNat', UInt32.toNat_ofNat',
    Nat.mod_eq_of_lt small, Nat.mod_eq_of_lt (show entriesPerPage < 2 ^ 32 by decide),
    UInt32.toNat_one]
  simp only [entriesPerPage]
  omega

theorem mapBlock_eq (valid : addressing.Valid) (plain : addressing.appendOnly = false)
    (heapBlock : BlockNumber) : addressing.mapBlock heapBlock = .ok (addressing.target heapBlock) := by
  have origin : addressing.origin heapBlock = 0 := by simp [Addressing.origin, plain]
  have ranges := rangesFrom_origin valid heapBlock
  rw [origin] at ranges
  simp only [mapBlock, ranges, bind, Except.bind, pure, Except.pure, target_eq]

theorem logicalPage_eq (valid : addressing.Valid) (chained : addressing.appendOnly = true)
    (heapBlock : BlockNumber) :
    addressing.logicalPage heapBlock = .ok (addressing.target heapBlock) := by
  have origin : addressing.origin heapBlock = sequenceStart (sequenceOf heapBlock) := by
    simp [Addressing.origin, chained]
  have ranges := rangesFrom_origin valid heapBlock
  rw [origin] at ranges
  simp only [logicalPage, ranges, bind, Except.bind, pure, Except.pure, target_eq]

/-! ## All blocks of a range have the same place -/

theorem sequenceOf_start (chained : addressing.appendOnly = true) (heapBlock : BlockNumber) :
    sequenceOf (addressing.start heapBlock) = sequenceOf heapBlock := by
  have origin := addressing.origin_eq heapBlock
  have le := addressing.origin_le heapBlock
  have small := addressing.rangeNumber_mul_le heapBlock
  rw [if_pos chained] at origin
  simp only [sequenceOf, start_toNat, sequenceLength] at *
  omega

theorem origin_start (addressing : Addressing) (heapBlock : BlockNumber) :
    addressing.origin (addressing.start heapBlock) = addressing.origin heapBlock := by
  cases chained : addressing.appendOnly with
  | false => simp [origin, chained]
  | true => simp [origin, chained, sequenceOf_start chained]

theorem rangeNumber_start (valid : addressing.Valid) (heapBlock : BlockNumber) :
    addressing.rangeNumber (addressing.start heapBlock) = addressing.rangeNumber heapBlock := by
  rw [rangeNumber, origin_start, start_toNat, Nat.add_sub_cancel_left,
    Nat.mul_div_cancel _ valid.positive]

theorem isStart_start (valid : addressing.Valid) (heapBlock : BlockNumber) :
    addressing.IsStart (addressing.start heapBlock) := by
  refine UInt32.toNat_inj.mp ?_
  rw [start_toNat, origin_start, rangeNumber_start valid, ← start_toNat]

theorem slot_start (valid : addressing.Valid) (heapBlock : BlockNumber) :
    addressing.slot (addressing.start heapBlock) = addressing.slot heapBlock := by
  rw [slot, rangeNumber_start valid, slot]

theorem target_start (valid : addressing.Valid) (heapBlock : BlockNumber) :
    addressing.target (addressing.start heapBlock) = addressing.target heapBlock := by
  rw [target, rangeNumber_start valid, target]

theorem target_ne_zero (addressing : Addressing) (heapBlock : BlockNumber) :
    addressing.target heapBlock ≠ 0 := by
  intro zero
  have := addressing.target_toNat heapBlock
  rw [zero] at this
  simp at this

/-- The range map never needs more pages than this. -/
theorem target_le (addressing : Addressing) (heapBlock : BlockNumber) :
    (addressing.target heapBlock).toNat ≤ 2 ^ 20 := by
  have := addressing.rangeNumber_lt heapBlock
  rw [target_toNat]
  simp only [entriesPerPage]
  omega

/-- Ranges of one sequence with the same place are the same. -/
theorem start_eq_start {heapBlock other : BlockNumber}
    (sequence : addressing.appendOnly = true → sequenceOf heapBlock = sequenceOf other)
    (target : addressing.target heapBlock = addressing.target other)
    (slot : addressing.slot heapBlock = addressing.slot other) :
    addressing.start heapBlock = addressing.start other := by
  have origin : (addressing.origin heapBlock).toNat = (addressing.origin other).toNat := by
    rw [origin_eq, origin_eq]
    split
    · rename_i chained
      rw [sequence chained]
    · rfl
  have page := congrArg UInt32.toNat target
  rw [target_toNat, target_toNat] at page
  have number : addressing.rangeNumber heapBlock = addressing.rangeNumber other := by
    simp only [Addressing.slot, entriesPerPage] at *
    omega
  refine UInt32.toNat_inj.mp ?_
  rw [start_toNat, start_toNat, origin, number]

end Warehouse.RangeIndex.Addressing
