import Warehouse.Block
import Warehouse.Error

/-! # From heap blocks to places in the range map

The table is cut into ranges of `pagesPerRange` blocks, and the range map has one
entry for each. The entries of a plain table fill the pages that follow the
metapage. An append-only table numbers its blocks in `sequences`, one for each
stream of insertions, and every sequence has a chain of range map pages of its
own; its ranges count from the start of the sequence. -/

namespace Warehouse.RangeIndex

/-- Entries on one page of the range map. -/
def entriesPerPage : Nat := 5454

/-- Largest number of table blocks in a range. -/
def maxPagesPerRange : Nat := 131072

/-- Number of block sequences of an append-only table. -/
abbrev sequenceCount : Nat := 128

/-- Blocks of a table that belong to one block sequence. -/
def sequenceLength : Nat := 0x2000000

/-- Blocks in a range unless the creator of the index says otherwise. -/
def defaultPagesPerRange (appendOnly : Bool) : UInt32 :=
  if appendOnly then 1 else 32

/-- The block sequence that a table block belongs to. -/
def sequenceOf (heapBlock : BlockNumber) : Nat := heapBlock.toNat / sequenceLength

/-- The first block of a block sequence. -/
def sequenceStart (sequence : Nat) : BlockNumber := UInt32.ofNat (sequence * sequenceLength)

theorem sequenceOf_lt (heapBlock : BlockNumber) : sequenceOf heapBlock < sequenceCount := by
  have := heapBlock.toNat_lt
  simp only [sequenceOf, sequenceLength, sequenceCount]
  omega

/-- How one index assigns table blocks to ranges. -/
structure Addressing where
  pagesPerRange : UInt32
  appendOnly : Bool
  deriving DecidableEq, Repr

namespace Addressing

/-- How many whole ranges lie before the block, counted from `start`. -/
def rangesFrom (addressing : Addressing) (start heapBlock : BlockNumber) : Except Fault UInt32 :=
  if addressing.pagesPerRange = 0 then .error .divisionByZero
  else .ok ((heapBlock - start) / addressing.pagesPerRange)

/-- The block from which ranges are counted. -/
def origin (addressing : Addressing) (heapBlock : BlockNumber) : BlockNumber :=
  if addressing.appendOnly then sequenceStart (sequenceOf heapBlock) else 0

/-- The first block of the range that covers `heapBlock`. -/
def rangeStart (addressing : Addressing) (heapBlock : BlockNumber) : Except Fault BlockNumber := do
  let start := addressing.origin heapBlock
  let ranges ← addressing.rangesFrom start heapBlock
  return start + ranges * addressing.pagesPerRange

/-- The entry of the block's range within its page of the range map. -/
def entryIndex (addressing : Addressing) (heapBlock : BlockNumber) : Except Fault Nat := do
  let ranges ← addressing.rangesFrom (addressing.origin heapBlock) heapBlock
  return ranges.toNat % entriesPerPage

/-- The range map page of a plain table that has the entry of the block's range;
the metapage is block zero. -/
def mapBlock (addressing : Addressing) (heapBlock : BlockNumber) : Except Fault BlockNumber := do
  let ranges ← addressing.rangesFrom 0 heapBlock
  return ranges / UInt32.ofNat entriesPerPage + 1

/-- The number, counted from one, of the range map page within the chain of the
block's sequence that has the entry of the block's range. -/
def logicalPage (addressing : Addressing) (heapBlock : BlockNumber) : Except Fault UInt32 := do
  let ranges ← addressing.rangesFrom (sequenceStart (sequenceOf heapBlock)) heapBlock
  return ranges / UInt32.ofNat entriesPerPage + 1

end Addressing

end Warehouse.RangeIndex
