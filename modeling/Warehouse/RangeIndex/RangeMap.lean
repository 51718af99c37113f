import Warehouse.RangeIndex.Chains
import Warehouse.RangeIndex.Summary

/-! # Reading the range map

Which page of the range map has the entry of a table block, and which summary the entry
points at. For a plain table the page is found by arithmetic, for an append-only one by
walking the chain of the block's sequence. -/

namespace Warehouse.RangeIndex

/-- A summary together with its place. -/
structure FoundSummary where
  place : ItemPointer
  summary : Summary
  deriving DecidableEq, Repr

namespace RangeMap

/-- The range map page that has the entry of a table block, if the range map reaches
that far. -/
def lookup (rounds : Nat) (heapBlock : BlockNumber) : Procedure (Option BlockNumber) := do
  let accessor ← Procedure.accessor
  if accessor.addressing.appendOnly then
    let sequence := sequenceOf heapBlock
    let target ← accessor.addressing.logicalPage heapBlock
    if accessor.position.sequence ≠ some sequence ∨ target < accessor.position.logical then
      Chains.toStart sequence
    Chains.advance rounds target
  else
    let target ← accessor.addressing.mapBlock heapBlock
    return if target ≤ accessor.lastMapPage then some target else none

/-- Keep a range map page in memory in place of the one before. -/
def pinCurrent (block : BlockNumber) : Procedure Unit := do
  let accessor ← Procedure.accessor
  if accessor.current ≠ some block then
    Procedure.pin block
    Procedure.remember { accessor with current := some block }

/-- Lock the range map page that has the entry of a table block. The range map has to
reach that far. -/
def lockPage (rounds : Nat) (heapBlock : BlockNumber) : Procedure (BlockNumber × Page) := do
  match ← lookup rounds heapBlock with
  | none => Procedure.report (.rangeMapNotCovering heapBlock)
  | some block =>
      pinCurrent block
      let page ← Procedure.acquire block
      if isMap page then return (block, page)
      else Procedure.report ((← Procedure.accessor).unexpectedPage block page)

/-- Read the entry at an index of a range map page. -/
def readEntry (block : BlockNumber) (index : Nat) : Procedure ItemPointer := do
  pinCurrent block
  let page ← Procedure.view block
  if isMap page then entry page index
  else Procedure.report ((← Procedure.accessor).unexpectedPage block page)

/-- The summary at an offset of a page, if there is a readable one. -/
def summaryAt (page : Page) (offset : OffsetNumber) : Except Fault (Option Summary) := do
  return (← page.item offset.toNat).bind Summary.decode

/-- Read the entry and then the summary that it points at, and start over when that is
not the summary of the range, because it was moved in between. An entry that keeps
pointing at it is damaged. -/
def findFrom (heapBlock : BlockNumber) (block : BlockNumber) (index : Nat)
    (previous : Option ItemPointer) : (rounds : Nat) → Procedure (Option FoundSummary)
  | 0 => Procedure.fail .exhausted
  | rounds + 1 => do
      Procedure.poll
      let place ← readEntry block index
      if !place.isValid then return none
      if previous = some place then
        Procedure.report ((← Procedure.accessor).corrupted block "inconsistent range map")
      Procedure.pin place.block
      let page ← Procedure.view place.block
      if isRegular page then
        if page.maxOffset < place.offset.toNat then return none
        match ← summaryAt page place.offset with
        | some summary =>
            if summary.heapBlock = heapBlock then return some ⟨place, summary⟩
            else findFrom heapBlock block index (some place) rounds
        | none => findFrom heapBlock block index (some place) rounds
      else findFrom heapBlock block index (some place) rounds

/-- The summary of the range that covers a table block. -/
def find (rounds : Nat) (heapBlock : BlockNumber) : Procedure (Option FoundSummary) := do
  let addressing := (← Procedure.accessor).addressing
  let heapBlock ← addressing.rangeStart heapBlock
  match ← lookup rounds heapBlock with
  | none => return none
  | some block => do
      let index ← addressing.entryIndex heapBlock
      findFrom heapBlock block index none rounds

end RangeMap

end Warehouse.RangeIndex
