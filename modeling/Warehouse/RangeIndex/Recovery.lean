import Warehouse.RangeIndex.Metapage
import Warehouse.Relation

/-! # Making logged changes again

Every record changes one to three pages. A change is made only on a page whose log
position lies before that of the record, so that making the changes of a log again
leaves the pages as they are. Pages that do not exist yet are added. -/

namespace Warehouse.RangeIndex.Recovery

/-- What a change makes of a page. A change that fails half-way leaves its first half
behind. -/
abbrev Outcome := Except Failure Unit × Page

/-- The part of a change that concerns one page. -/
structure PageChange where
  block : BlockNumber
  apply : Page → Outcome

/-- A change that is made as a whole or not at all. -/
def Outcome.whole (before : Page) : Except Failure Page → Outcome
  | .ok page => (.ok (), page)
  | .error failure => (.error failure, before)

/-- Make a change on a page that does not have it yet. -/
def applyAt (relation : Relation) (lsn : Lsn) (change : PageChange) :
    Except Failure Unit × Relation :=
  match relation.readExtending change.block with
  | (.error failure, relation) => (.error failure, relation)
  | (.ok (), relation) =>
      match relation.page? change.block with
      | none => (.error (Error.invalidBlock change.block), relation)
      | some page =>
          if lsn ≤ page.lsn then (.ok (), relation)
          else
            match change.apply page with
            | (.error failure, page) => (.error failure, relation.setPage change.block page)
            | (.ok (), page) =>
                (.ok (), (relation.setPage change.block (page.setLsn lsn)).markDirty change.block)

/-- Make changes one after the other, up to the first that fails. -/
def applyAll (relation : Relation) (lsn : Lsn) : List PageChange → Except Failure Unit × Relation
  | [] => (.ok (), relation)
  | change :: rest =>
      match applyAt relation lsn change with
      | (.ok (), relation) => applyAll relation lsn rest
      | (.error failure, relation) => (.error failure, relation)

/-- Store a tuple at a given offset, on a page initialised for it if it was new. -/
def addTuple (block : BlockNumber) (tuple : List UInt8) (offset : OffsetNumber) (fresh : Bool)
    (page : Page) : Outcome :=
  let page := if fresh then freshPage regularType else page
  match page.addItem tuple (some offset.toNat) with
  | .error cause => (.error (.fault cause), page)
  | .ok (some (_, page)) => (.ok (), page)
  | .ok none =>
      (.error (Error.log s!"failed to add BRIN tuple at ({block.toNat}, {offset.toNat})"), page)

/-- Delete an item. -/
def deleteAt (offset : OffsetNumber) (page : Page) : Outcome :=
  .whole page (Failure.ofFault (page.deleteItem offset.toNat))

/-- Delete an item and store the tuple that replaces it on the same page. -/
def replaceAt (block : BlockNumber) (old : OffsetNumber) (tuple : List UInt8) (new : OffsetNumber)
    (page : Page) : Outcome :=
  match deleteAt old page with
  | (.ok (), page) => addTuple block tuple new false page
  | (.error failure, page) => (.error failure, page)

/-- The contents of the metapage after the range map of the index was extended. -/
def extendContents (contents : Metapage) (target : BlockNumber) (appendOnly : Bool)
    (sequence : UInt32) (logicalPage : UInt32) (previousTail : BlockNumber) :
    Except Failure Metapage :=
  if appendOnly then
    if h : sequence.toNat < sequenceCount then
      let first :=
        if previousTail = invalidBlock then target else contents.chains[sequence.toNat].first
      .ok { contents with chains := contents.chains.set sequence.toNat ⟨first, target, logicalPage⟩ h }
    else .error (Error.invalidSlot sequence.toNat)
  else .ok { contents with lastMapPage := target }

/-- The change of the metapage when the range map of the index was extended. -/
def extendMetapage (index : String) (target : BlockNumber) (appendOnly : Bool) (sequence : UInt32)
    (logicalPage : UInt32) (previousTail : BlockNumber) (page : Page) : Outcome :=
  .whole page <|
    match Metapage.read page index metaBlock with
    | .error cause => .error (.error cause)
    | .ok contents =>
        (fun contents : Metapage => contents.write page) <$>
          extendContents contents target appendOnly sequence logicalPage previousTail

/-- The change of an entry of the range map. -/
def redirect (block : BlockNumber) (addressing : Addressing) (heapBlock : BlockNumber)
    (place : ItemPointer) : PageChange :=
  ⟨block, fun page => .whole page (Failure.ofFault (setEntryFor page addressing heapBlock place))⟩

/-- A new page of the range map. -/
def addedMapPage (appendOnly : Bool) (logicalPage : UInt32) : Page :=
  if appendOnly then setLogicalPage (freshPage mapType) logicalPage else freshPage mapType

/-- The changes that a record stands for, in the order in which they are made. -/
def changesOf (index : String) : Log.Record → List PageChange
  | .createIndex pagesPerRange appendOnly =>
      [⟨metaBlock, fun _ => (.ok (), Metapage.initial pagesPerRange appendOnly)⟩]
  | .extendMap target appendOnly sequence logicalPage previousTail =>
      [⟨metaBlock, extendMetapage index target appendOnly sequence logicalPage previousTail⟩,
        ⟨target, fun _ => (.ok (), addedMapPage appendOnly logicalPage)⟩] ++
        (if appendOnly && previousTail != invalidBlock then
          [⟨previousTail, fun page => (.ok (), setNextMapPage page target)⟩]
        else [])
  | .insert heapBlock pagesPerRange appendOnly mapBlock block offset tuple fresh =>
      [⟨block, addTuple block tuple offset fresh⟩,
        redirect mapBlock ⟨pagesPerRange, appendOnly⟩ heapBlock ⟨block, offset⟩]
  | .update heapBlock pagesPerRange appendOnly mapBlock oldBlock oldOffset newBlock newOffset tuple
      fresh =>
      (if oldBlock = newBlock then [⟨oldBlock, replaceAt newBlock oldOffset tuple newOffset⟩]
      else
        [⟨oldBlock, deleteAt oldOffset⟩, ⟨newBlock, addTuple newBlock tuple newOffset fresh⟩]) ++
      [redirect mapBlock ⟨pagesPerRange, appendOnly⟩ heapBlock ⟨newBlock, newOffset⟩]
  | .desummarize pagesPerRange appendOnly heapBlock mapBlock block offset =>
      [redirect mapBlock ⟨pagesPerRange, appendOnly⟩ heapBlock .invalid,
        ⟨block, deleteAt offset⟩]

/-- Make the changes of one record again. -/
def redo (relation : Relation) (lsn : Lsn) (record : Log.Record) : Except Failure Unit × Relation :=
  applyAll relation lsn (changesOf relation.name record)

/-- Make the changes of a log again, up to the first that fails. -/
def replay (relation : Relation) : List (Lsn × Log.Record) → Except Failure Unit × Relation
  | [] => (.ok (), relation)
  | (lsn, record) :: rest =>
      match redo relation lsn record with
      | (.ok (), relation) => replay relation rest
      | (.error failure, relation) => (.error failure, relation)

end Warehouse.RangeIndex.Recovery
