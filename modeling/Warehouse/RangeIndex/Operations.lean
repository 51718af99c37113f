import Warehouse.RangeIndex.Coverage

/-! # Creating, opening and changing an index

An index binds ranges of table blocks to summaries: `insert` binds the range of a block,
`desummarize` unbinds it, and `RangeMap.find` reads the binding. -/

namespace Warehouse.RangeIndex

/-- Write the metapage of a new index into an empty relation. -/
def create (index : String) (pagesPerRange : UInt32) (appendOnly : Bool) : Procedure Unit := do
  if pagesPerRange = 0 ∨ maxPagesPerRange < pagesPerRange.toNat then
    Procedure.report (.config
      s!"pages_per_range must be between 1 and {maxPagesPerRange}, got {pagesPerRange.toNat}")
  if (← Procedure.countBlocks) ≠ 0 then
    Procedure.report (.config s!"index \"{index}\" is not empty")
  let block ← Procedure.allocate
  if block ≠ metaBlock then Procedure.report (.invalidBlock block)
  let _ ← Procedure.acquire block
  let page := Metapage.initial pagesPerRange appendOnly
  Procedure.change block page
  Procedure.logged (.createIndex pagesPerRange appendOnly) [(block, page)]
  Procedure.releaseAll

/-- Read the metapage and start to use the index. -/
def openIndex (index : String) : Procedure Unit := do
  Procedure.pin metaBlock
  let page ← Procedure.view metaBlock
  let contents ← Metapage.read page index metaBlock
  Procedure.remember (.ofMetapage index contents)

/-- Store a summary for a range that has none. There is no result when another operation
stored one first. -/
def store (rounds : Nat) (addressing : Addressing) (heapBlock : BlockNumber) (index : Nat)
    (tuple : List UInt8) : Procedure (Option ItemPointer) := do
  let site ← Placement.lockSite none tuple.length rounds
  let (mapBlock, mapPage) ← RangeMap.lockPage rounds heapBlock
  if (← entry mapPage index).isValid then
    Procedure.releaseAll
    return none
  let (offset, page) ← Placement.addTo site tuple
  let place : ItemPointer := ⟨site.block, offset⟩
  let mapPage ← setEntry mapPage index place
  Procedure.write mapBlock mapPage
  Procedure.markDirty site.block
  Procedure.markDirty mapBlock
  Procedure.logged
    (.insert heapBlock addressing.pagesPerRange addressing.appendOnly mapBlock site.block offset tuple
      site.fresh)
    [(site.block, page), (mapBlock, mapPage)]
  Procedure.releaseAll
  return some place

/-- Store the summary of a range, moving the present one out of the way, until no other
operation interferes. -/
def bind (limit : Nat) (addressing : Addressing) (heapBlock : BlockNumber) (index : Nat)
    (tuple : List UInt8) : (rounds : Nat) → Procedure ItemPointer
  | 0 => Procedure.fail .exhausted
  | rounds + 1 => do
      Procedure.poll
      let stored ← match ← RangeMap.find limit heapBlock with
        | some found => Placement.move limit heapBlock found.place tuple
        | none => store limit addressing heapBlock index tuple
      match stored with
      | some place => return place
      | none => bind limit addressing heapBlock index tuple rounds

/-- Store the summary of the range that covers a table block, in place of the one it
has. The result is where the summary lies. -/
def insert (rounds : Nat) (heapBlock : BlockNumber) (payload : List UInt8) : Procedure ItemPointer := do
  let addressing := (← Procedure.accessor).addressing
  let heapBlock ← addressing.rangeStart heapBlock
  let tuple := Summary.encode ⟨heapBlock, payload⟩
  if maxTupleSize < tuple.length then Procedure.report (.pageFull invalidBlock)
  let _ ← Coverage.ensure rounds heapBlock
  let index ← addressing.entryIndex heapBlock
  bind rounds addressing heapBlock index tuple rounds

/-- Remove the summary that an entry points at. The result is false when another
operation got in the way. -/
def unbind (rounds : Nat) (heapBlock : BlockNumber) (index : Nat) (place : ItemPointer) :
    Procedure Bool := do
  Procedure.pin place.block
  let page ← Procedure.acquire place.block
  if !isRegular page then
    Procedure.releaseAll
    return false
  let (mapBlock, mapPage) ← RangeMap.lockPage rounds heapBlock
  if (← entry mapPage index) ≠ place then
    Procedure.releaseAll
    return false
  let accessor ← Procedure.accessor
  let taken ←
    if page.maxOffset < place.offset.toNat then pure false
    else LinePointer.isUsed <$> (liftM (page.pointer place.offset.toNat) : Procedure LinePointer)
  if !taken then Procedure.report (accessor.corrupted place.block "inconsistent range map")
  let mapPage ← setEntry mapPage index .invalid
  Procedure.write mapBlock mapPage
  let page ← page.deleteItem place.offset.toNat
  Procedure.write place.block page
  Procedure.markDirty place.block
  Procedure.markDirty mapBlock
  let addressing := accessor.addressing
  Procedure.logged
    (.desummarize addressing.pagesPerRange addressing.appendOnly heapBlock mapBlock place.block
      place.offset)
    [(mapBlock, mapPage), (place.block, page)]
  Procedure.releaseAll
  return true

/-- Open the index and remove the summary of the range that covers a table block. The
result is true when the range has no summary now, and false when it may be tried
again. -/
def desummarize (rounds : Nat) (index : String) (heapBlock : BlockNumber) : Procedure Bool := do
  openIndex index
  let addressing := (← Procedure.accessor).addressing
  let heapBlock ← addressing.rangeStart heapBlock
  if addressing.appendOnly then Chains.toStart (sequenceOf heapBlock)
  match ← RangeMap.lookup rounds heapBlock with
  | none => return true
  | some mapBlock =>
      let entryIndex ← addressing.entryIndex heapBlock
      let place ← RangeMap.readEntry mapBlock entryIndex
      if place.isValid then unbind rounds heapBlock entryIndex place else return true

end Warehouse.RangeIndex
