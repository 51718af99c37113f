import Warehouse.Log.Writer
import Warehouse.RangeIndex.Layout

/-! # Relations

A relation is a growing sequence of pages that are all kept in memory, together with
the log of their changes. Other writers and the log device act on a relation too;
`Interference` says what they are about to do. -/

namespace Warehouse

/-- A page in memory. -/
structure Buffer where
  page : Page
  /-- The page has changes that are not on disk. -/
  dirty : Bool

/-- What happens when a page is added: other writers add pages of their own first,
and may take the new page for a purpose of theirs. -/
structure RivalGrowth where
  extraPages : Nat
  /-- The page type that the new page is given, unless it is zero. -/
  claimedType : UInt16
  deriving DecidableEq, Repr

/-- What happens right before a certain block is read: another writer changes a
page. -/
structure RivalChange where
  /-- The block whose reading is awaited. -/
  awaited : BlockNumber
  /-- How many times it is read undisturbed first. -/
  skipped : Nat
  /-- The block that is changed. -/
  block : BlockNumber
  change : Page → Page

/-- What others are about to do to a relation; each of it happens once. -/
structure Interference where
  growth : Option RivalGrowth
  change : Option RivalChange
  /-- How many log writes are left including the one that fails. -/
  logFailure : Option Nat

namespace Interference

/-- Nobody else acts on the relation. -/
def none : Interference := ⟨.none, .none, .none⟩

end Interference

/-- An index relation. -/
structure Relation where
  name : String
  buffers : Array Buffer
  /-- The writer of its log, if its changes are logged. -/
  log : Option Log.Writer
  interference : Interference

namespace Relation

/-- A relation without pages. -/
def empty (name : String) (log : Option Log.Writer) : Relation :=
  ⟨name, #[], log, .none⟩

/-- Number of pages. -/
def blockCount (relation : Relation) : BlockNumber := UInt32.ofNat relation.buffers.size

/-- The buffer of a block. -/
def buffer? (relation : Relation) (block : BlockNumber) : Option Buffer :=
  relation.buffers[block.toNat]?

/-- The page of a block. -/
def page? (relation : Relation) (block : BlockNumber) : Option Page :=
  (relation.buffer? block).map Buffer.page

/-- Replace the page of a block. -/
def setPage (relation : Relation) (block : BlockNumber) (page : Page) : Relation :=
  { relation with buffers := relation.buffers.modify block.toNat fun buffer => { buffer with page } }

/-- Note that the page of a block has changed. -/
def markDirty (relation : Relation) (block : BlockNumber) : Relation :=
  { relation with
    buffers := relation.buffers.modify block.toNat fun buffer => { buffer with dirty := true } }

/-- Add one page of zeros. -/
def grow (relation : Relation) : Relation :=
  { relation with buffers := relation.buffers.push ⟨.zero, false⟩ }

/-- Add `count` pages of zeros. -/
def growBy (relation : Relation) : Nat → Relation
  | 0 => relation
  | count + 1 => relation.grow.growBy count

/-- The change that another writer makes right before `block` is read. -/
def beforeReading (relation : Relation) (block : BlockNumber) : Relation :=
  match relation.interference.change with
  | none => relation
  | some rival =>
      if rival.awaited ≠ block then relation
      else if rival.skipped = 0 then
        let relation := { relation with interference.change := none }
        match relation.page? rival.block with
        | none => relation
        | some page => relation.setPage rival.block (rival.change page)
      else
        { relation with interference.change := some { rival with skipped := rival.skipped - 1 } }

/-- Read a block into a buffer. Its page may change before. -/
def read (relation : Relation) (block : BlockNumber) : Except Error Unit × Relation :=
  let relation := relation.beforeReading block
  match relation.buffer? block with
  | some _ => (.ok (), relation)
  | none => (.error (.invalidBlock block), relation)

/-- Add a page and give its number. Other writers may come first. -/
def allocate (relation : Relation) : Except Error BlockNumber × Relation :=
  let rival := relation.interference.growth.getD ⟨0, 0⟩
  let relation := { relation with interference.growth := none }
  let relation := relation.growBy rival.extraPages
  if invalidBlock.toNat < relation.buffers.size then (.error (.invalidBlock invalidBlock), relation)
  else
    let block := relation.blockCount
    let relation := relation.grow
    if rival.claimedType = 0 then (.ok block, relation)
    else (.ok block, relation.setPage block (RangeIndex.freshPage rival.claimedType))

/-- Add pages until the block exists, at most `rounds` times. -/
def growTo (relation : Relation) (block : BlockNumber) : (rounds : Nat) →
    Except Failure Unit × Relation
  | 0 => (.error .exhausted, relation)
  | rounds + 1 =>
      if block < relation.blockCount then (.ok (), relation)
      else
        match relation.allocate with
        | (.error cause, relation) => (.error cause, relation)
        | (.ok _, relation) => relation.growTo block rounds

/-- Read a block into a buffer, adding pages until it exists. -/
def readExtending (relation : Relation) (block : BlockNumber) : Except Failure Unit × Relation :=
  match relation.growTo block (block.toNat + 2) with
  | (.error cause, relation) => (.error cause, relation)
  | (.ok (), relation) =>
      match relation.read block with
      | (.error cause, relation) => (.error cause, relation)
      | (.ok (), relation) => (.ok (), relation)

/-- What is reported when the log device does not take a record. -/
def logDeviceFailure : Error := .log "log device failed"

/-- Whether the log device takes the next record, with what it will do after it. -/
def logAttempt (interference : Interference) : Bool × Interference :=
  match interference.logFailure with
  | none => (true, interference)
  | some left =>
      if left ≤ 1 then (false, { interference with logFailure := none })
      else (true, { interference with logFailure := some (left - 1) })

/-- Write a record to the log, if the relation has one. The log file stands beside
the relation, because several relations may write to it. -/
def logRecord (relation : Relation) (file : ByteArray) (record : Log.Record) :
    Except Error (Option Lsn) × Relation × ByteArray :=
  match relation.log with
  | none => (.ok none, relation, file)
  | some writer =>
      let (taken, interference) := logAttempt relation.interference
      let relation := { relation with interference }
      if taken then
        let (lsn, writer, file) := writer.append file record
        (.ok (some lsn), { relation with log := some writer }, file)
      else (.error logDeviceFailure, relation, file)

/-- The numbers of the blocks that have changes not on disk. -/
def dirtyBlocks (relation : Relation) : List Nat :=
  (List.range relation.buffers.size).filter fun block =>
    (relation.buffers[block]?).any Buffer.dirty

end Relation

end Warehouse
