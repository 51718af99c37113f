import Warehouse.RangeIndex.RangeMap

/-! # Where summaries are stored

A new summary goes to the last page of the index if it has room, and else to a new
page. A summary is moved by storing it elsewhere, redirecting its entry, and deleting
it at the old place, all under the locks of the pages involved: regular pages in
ascending order and then the range map page. -/

namespace Warehouse.RangeIndex.Placement

/-- A locked regular page with room for a new item. -/
structure Site where
  block : BlockNumber
  page : Page
  /-- The page was initialised here, which the log has to know. -/
  fresh : Bool

/-- Lock the last page of the index if it takes an item of `length` bytes. -/
def lockLast (excluded : Option BlockNumber) (length : Nat) : Procedure (Option Site) := do
  let count ← Procedure.countBlocks
  if count ≤ 1 ∨ excluded = some (count - 1) then return none
  let last := count - 1
  Procedure.pin last
  let page ← Procedure.acquire last
  if isRegular page && !isEvacuating page && page.fits length then return some ⟨last, page, false⟩
  Procedure.release last
  return none

/-- Lock a regular page with room for an item of `length` bytes, other than the excluded
one. A new page that another operation takes for the range map is left to it. -/
def lockSite (excluded : Option BlockNumber) (length : Nat) : (rounds : Nat) → Procedure Site
  | 0 => Procedure.fail .exhausted
  | rounds + 1 => do
      match ← lockLast excluded length with
      | some site => return site
      | none =>
          let block ← Procedure.allocate
          let page ← Procedure.acquire block
          if page.isNew then
            let page := freshPage regularType
            Procedure.write block page
            return ⟨block, page, true⟩
          else
            Procedure.release block
            lockSite excluded length rounds

/-- Store an item on a locked page. -/
def addTo (site : Site) (tuple : List UInt8) : Procedure (OffsetNumber × Page) := do
  match ← site.page.addItem tuple none with
  | none => Procedure.report (.pageFull site.block)
  | some (offset, page) =>
      let offset := UInt16.ofNat offset
      Procedure.write site.block page
      return (offset, page)

/-- Move the summary of the range that starts at `heapBlock` away from `old`, and store
`tuple` at the new place. There is no result when it is not at `old` any more. -/
def move (rounds : Nat) (heapBlock : BlockNumber) (old : ItemPointer) (tuple : List UInt8) :
    Procedure (Option ItemPointer) := do
  let addressing := (← Procedure.accessor).addressing
  Procedure.pin old.block
  let oldPage ← Procedure.acquire old.block
  let present ←
    if isRegular oldPage then
      (fun found : Option Summary => found.any fun summary => summary.heapBlock == heapBlock) <$>
        (liftM (RangeMap.summaryAt oldPage old.offset) : Procedure (Option Summary))
    else pure false
  if !present then
    Procedure.releaseAll
    return none
  let site ← lockSite (some old.block) tuple.length rounds
  let (mapBlock, mapPage) ← RangeMap.lockPage rounds heapBlock
  let index ← addressing.entryIndex heapBlock
  if (← entry mapPage index) ≠ old then
    Procedure.releaseAll
    return none
  let (offset, newPage) ← addTo site tuple
  let oldPage ← oldPage.deleteItem old.offset.toNat
  Procedure.write old.block oldPage
  let new : ItemPointer := ⟨site.block, offset⟩
  let mapPage ← setEntry mapPage index new
  Procedure.write mapBlock mapPage
  Procedure.markDirty old.block
  Procedure.markDirty site.block
  Procedure.markDirty mapBlock
  Procedure.logged
    (.update heapBlock addressing.pagesPerRange addressing.appendOnly mapBlock old.block old.offset
      site.block offset tuple site.fresh)
    [(old.block, oldPage), (site.block, newPage), (mapBlock, mapPage)]
  Procedure.releaseAll
  return some new

/-- Move the given items of a page elsewhere. -/
def evacuate (rounds : Nat) (block : BlockNumber) : List (Nat × List UInt8) → Procedure Unit
  | [] => return ()
  | (offset, bytes) :: rest => do
      Procedure.poll
      match Summary.decode bytes with
      | none =>
          Procedure.report ((← Procedure.accessor).corrupted block s!"unreadable summary tuple at offset {offset}")
      | some summary =>
          let _ ← move rounds summary.heapBlock ⟨block, UInt16.ofNat offset⟩ bytes
          evacuate rounds block rest

end Warehouse.RangeIndex.Placement
