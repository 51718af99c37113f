import Warehouse.Page.Basic

/-! # Line pointers and items

A page holds items. The array of line pointers grows from the header upwards,
the items grow from the special area downwards, and `lower` and `upper` bound
the gap between the two. A line pointer says where its item lies. Deleting an
item leaves its line pointer unused, so that no other offset changes, and adding
an item takes the first unused one. -/

namespace Warehouse

/-- What a line pointer says: fifteen bits of position, two of state, fifteen
of length. -/
structure LinePointer where
  position : UInt16
  state : UInt8
  length : UInt16
  deriving DecidableEq, Repr

namespace LinePointer

/-- The line pointer of no item. -/
def unused : LinePointer := ⟨0, 0, 0⟩

/-- The state of a line pointer that has an item. -/
def normal : UInt8 := 1

/-- Whether the line pointer is taken. -/
def isUsed (pointer : LinePointer) : Bool := pointer.state != 0

/-- Take the fields of a stored word apart. -/
def ofWord (word : UInt32) : LinePointer :=
  let raw := word.toNat
  ⟨UInt16.ofNat (raw % 0x8000), UInt8.ofNat (raw / 0x8000 % 4), UInt16.ofNat (raw / 0x20000)⟩

/-- The word that stores the line pointer; each field keeps its low bits. -/
def toWord (pointer : LinePointer) : UInt32 :=
  UInt32.ofNat (pointer.position.toNat % 0x8000 + pointer.state.toNat % 4 * 0x8000 +
    pointer.length.toNat % 0x8000 * 0x20000)

end LinePointer

namespace Page

/-- Size of a line pointer in bytes. -/
def pointerSize : Nat := 4

/-- The largest offset in the line pointer array. -/
def maxOffset (page : Page) : Nat := (page.lower.toNat - headerSize) / pointerSize

/-- Where the line pointer of an offset is stored. -/
def pointerPos (offset : Nat) : Nat := headerSize + (offset - 1) * pointerSize

/-- The line pointer of an offset; outside the array it is unused. -/
def pointer (page : Page) (offset : Nat) : Except Fault LinePointer :=
  if offset = 0 ∨ page.maxOffset < offset then .ok .unused
  else LinePointer.ofWord <$> page.fetch32 (pointerPos offset)

/-- Replace the line pointer of an offset. -/
def setPointer (page : Page) (offset : Nat) (pointer : LinePointer) : Except Fault Page :=
  page.store32 (pointerPos offset) pointer.toWord

/-- The bytes of the item at an offset, if there is one. -/
def item (page : Page) (offset : Nat) : Except Fault (Option (List UInt8)) := do
  let pointer ← page.pointer offset
  if pointer.state = LinePointer.normal then
    some <$> page.fetch pointer.position.toNat pointer.length.toNat
  else return none

/-- The items at the `count` offsets from `first` on. -/
def itemsFrom (page : Page) (first : Nat) : Nat → Except Fault (List (Nat × List UInt8))
  | 0 => .ok []
  | count + 1 => do
      let found ← page.item first
      let rest ← page.itemsFrom (first + 1) count
      match found with
      | some bytes => return (first, bytes) :: rest
      | none => return rest

/-- All items of the page with their offsets, in ascending order. -/
def items (page : Page) : Except Fault (List (Nat × List UInt8)) :=
  page.itemsFrom 1 page.maxOffset

/-- Whether one of the `count` line pointers from `first` on is taken. -/
def anyUsedFrom (page : Page) (first : Nat) : Nat → Except Fault Bool
  | 0 => .ok false
  | count + 1 => do
      let pointer ← page.pointer first
      if pointer.isUsed then return true else page.anyUsedFrom (first + 1) count

/-- Whether any line pointer of the page is taken. -/
def hasItems (page : Page) : Except Fault Bool :=
  page.anyUsedFrom 1 page.maxOffset

/-- Room for the data of one more item, next to a line pointer of its own. -/
def freeSpace (page : Page) : Nat :=
  page.upper.toNat - (page.lower.toNat + pointerSize)

/-- Whether an item of `length` bytes fits, with a line pointer of its own. -/
def fits (page : Page) (length : Nat) : Bool :=
  !page.isNew && align length ≤ page.freeSpace

/-- The first of the `count` offsets from `first` on whose line pointer is
unused. -/
def firstUnusedFrom (page : Page) (first : Nat) : Nat → Except Fault (Option Nat)
  | 0 => .ok none
  | count + 1 => do
      let pointer ← page.pointer first
      if pointer.isUsed then page.firstUnusedFrom (first + 1) count else return some first

/-- The offset at which a new item goes, if it may: the wanted one when it is
unused, or else the first unused one, or a new one after the last. -/
def slotFor (page : Page) : (wanted : Option Nat) → Except Fault (Option Nat)
  | some offset => do
      if offset = 0 ∨ page.maxOffset + 1 < offset then return none
      else if (← page.pointer offset).isUsed then return none
      else return some offset
  | none => do
      match ← page.firstUnusedFrom 1 page.maxOffset with
      | some offset => return some offset
      | none => return some (page.maxOffset + 1)

/-- Store an item, at the wanted offset or at the first unused one. The result
is the offset with the changed page, or nothing when the offset is taken, would
leave a gap in the array, or the room does not suffice. -/
def addItem (page : Page) (item : List UInt8) (wanted : Option Nat) :
    Except Fault (Option (Nat × Page)) := do
  if page.isNew then return none
  let some offset ← page.slotFor wanted | return none
  let lower := page.lower.toNat + (if page.maxOffset < offset then pointerSize else 0)
  let upper := page.upper.toNat
  if upper < align item.length ∨ upper - align item.length < lower then return none
  let start := upper - align item.length
  let page ← page.store start item
  let page := (page.setUpper (UInt16.ofNat start)).setLower (UInt16.ofNat lower)
  let page ← page.setPointer offset
    ⟨UInt16.ofNat start, LinePointer.normal, UInt16.ofNat item.length⟩
  return some (offset, page)

/-- Delete the item at an offset, leaving all other offsets as they are. The room
of the lowest item is reclaimed at once, and the last line pointer is dropped. -/
def deleteItem (page : Page) (offset : Nat) : Except Fault Page := do
  if offset = 0 ∨ page.maxOffset < offset then return page
  let last := page.maxOffset
  let pointer ← page.pointer offset
  let page :=
    if pointer.isUsed && pointer.position == page.upper then
      page.setUpper (UInt16.ofNat (page.upper.toNat + align pointer.length.toNat))
    else page
  let page ← page.setPointer offset .unused
  if offset = last then
    return page.setLower (UInt16.ofNat (page.lower.toNat - pointerSize))
  else return page

/-- The text that shows the header of a page. -/
def headerText (page : Page) : String :=
  String.join ["Page \x7b lsn: ", toString page.lsn.toNat, ", lower: ", toString page.lower.toNat,
    ", upper: ", toString page.upper.toNat, ", special: ", toString page.special.toNat, " \x7d"]

end Page

end Warehouse
