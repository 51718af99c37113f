import Warehouse.Page.Items
import Warehouse.RangeIndex.Addressing

/-! # Pages of a range index

Block zero is the metapage, range map pages hold pointers to summaries, and
regular pages hold the summaries. The special area at the end of every page says
which kind of page it is, and links the range map pages of append-only tables. -/

namespace Warehouse.RangeIndex

/-- Where a summary is stored: a page and an offset on it. -/
structure ItemPointer where
  block : BlockNumber
  offset : OffsetNumber
  deriving DecidableEq, Repr

namespace ItemPointer

/-- The pointer of a range without a summary. -/
def invalid : ItemPointer := ⟨invalidBlock, 0⟩

/-- Whether the pointer points at anything. -/
def isValid (pointer : ItemPointer) : Bool := pointer.offset != 0

/-- The six bytes of a pointer: the two halves of the block number, higher one
first, and the offset. -/
def encode (pointer : ItemPointer) : List UInt8 :=
  littleEndian 2 (pointer.block.toNat / UInt16.size) ++ littleEndian 2 (pointer.block.toNat % UInt16.size) ++
    littleEndian 2 pointer.offset.toNat

/-- The pointer that six bytes stand for. -/
def decode (bytes : List UInt8) : ItemPointer :=
  let high := ofLittleEndian (bytes.take 2)
  let low := ofLittleEndian ((bytes.drop 2).take 2)
  ⟨UInt32.ofNat (high * UInt16.size + low), UInt16.ofNat (ofLittleEndian ((bytes.drop 4).take 2))⟩

end ItemPointer

/-- The page type of the metapage. -/
def metaType : UInt16 := 0xF091

/-- The page type of range map pages. -/
def mapType : UInt16 := 0xF092

/-- The page type of regular pages. -/
def regularType : UInt16 := 0xF093

/-- The flag of a regular page whose summaries are being moved away. -/
def evacuateFlag : UInt16 := 1

/-- Bytes of the special area. -/
def specialSize : Nat := 16

/-- Size of an entry of the range map. -/
def entrySize : Nat := 6

/-- Bytes that the largest summary tuple may take: what an empty regular page
has room for next to its line pointer. -/
def maxTupleSize : Nat := (pageSize - headerSize - specialSize - 4) / 8 * 8

/-- The page kind stored in the special area. -/
def pageType (page : Page) : UInt16 := page.word16 32766

/-- The flags stored in the special area. -/
def pageFlags (page : Page) : UInt16 := page.word16 32764

/-- Replace the flags. -/
def setPageFlags (page : Page) (flags : UInt16) : Page := page.setWord16 32764 flags

/-- The number of a range map page within its chain; zero outside chains. -/
def logicalPageOf (page : Page) : UInt32 := page.word32 32752

/-- Replace the number within the chain. -/
def setLogicalPage (page : Page) (number : UInt32) : Page := page.setWord32 32752 number

/-- The next range map page of the chain. -/
def nextMapPage (page : Page) : BlockNumber := page.word32 32756

/-- Replace the link to the next range map page. -/
def setNextMapPage (page : Page) (block : BlockNumber) : Page := page.setWord32 32756 block

/-- Whether the page is a regular page. -/
def isRegular (page : Page) : Bool := pageType page == regularType

/-- Whether the page is a range map page. -/
def isMap (page : Page) : Bool := pageType page == mapType

/-- Whether the page is a regular page that takes no new summaries. -/
def isEvacuating (page : Page) : Bool := pageFlags page &&& evacuateFlag != 0

/-- An empty page with the header and special area of an index page. -/
def emptyPage : Page := .blank (UInt16.ofNat (pageSize - specialSize))

/-- An empty page of the given kind. A fresh range map page ends its chain. -/
def freshPage (kind : UInt16) : Page :=
  let page := emptyPage.setWord16 32766 kind
  if kind = mapType then setNextMapPage page invalidBlock else page

/-- Where an entry of the range map is stored. -/
def entryPos (index : Nat) : Nat := headerSize + index * entrySize

/-- The entry at an index of a range map page. -/
def entry (page : Page) (index : Nat) : Except Fault ItemPointer :=
  ItemPointer.decode <$> page.fetch (entryPos index) entrySize

/-- Replace the entry at an index. A pointer without an offset is stored as the
invalid one. -/
def setEntry (page : Page) (index : Nat) (pointer : ItemPointer) : Except Fault Page :=
  page.store (entryPos index) (if pointer.isValid then pointer else .invalid).encode

/-- Replace the entry of the range that covers a table block. -/
def setEntryFor (page : Page) (addressing : Addressing) (heapBlock : BlockNumber)
    (pointer : ItemPointer) : Except Fault Page := do
  setEntry page (← addressing.entryIndex heapBlock) pointer

/-- Flag a page that still holds summaries, so that no new ones land on it. There
is nothing to flag on a page without any, and it can be reused at once. -/
def startEvacuating (page : Page) : Except Fault (Option Page) := do
  if page.isNew then return none
  if ← page.hasItems then return some (setPageFlags page (pageFlags page ||| evacuateFlag))
  else return none

end Warehouse.RangeIndex
