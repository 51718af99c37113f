import Warehouse.RangeIndex.Metapage

/-! # Accessors

An accessor is what one user of an index keeps between operations: a copy of what the
metapage said, a position in a chain of range map pages, and the range map page that
was used last. All of it may be out of date, and every operation that depends on it
checks it against the pages. -/

namespace Warehouse.RangeIndex

/-- A position in the chain of a block sequence. -/
structure ChainPosition where
  sequence : Option Nat
  page : BlockNumber
  /-- The number of the page within the chain; zero before any page was visited. -/
  logical : UInt32
  deriving DecidableEq, Repr

/-- The position of an accessor that has not visited any chain. -/
def ChainPosition.nowhere : ChainPosition := ⟨none, invalidBlock, 0⟩

/-- The state of one user of an index. -/
structure Accessor where
  /-- The name of the index. -/
  index : String
  addressing : Addressing
  /-- The last range map page of a plain table as far as known. -/
  lastMapPage : BlockNumber
  /-- The ends of all chains as far as known. -/
  chains : Vector Chain sequenceCount
  position : ChainPosition
  /-- The range map page that is kept in memory. -/
  current : Option BlockNumber
  /-- Whether the user has asked for running operations to stop. -/
  cancelled : Bool

namespace Accessor

/-- The accessor for an index whose metapage was just read. -/
def ofMetapage (index : String) (contents : Metapage) : Accessor where
  index := index
  addressing := contents.addressing
  lastMapPage := contents.lastMapPage
  chains := contents.chains
  position := .nowhere
  current := none
  cancelled := false

/-- The accessor of a user who has not opened an index yet. -/
def unopened : Accessor := ofMetapage "" (.new 0 false)

/-- What is known about the chain of a block sequence. -/
def chain (accessor : Accessor) (sequence : Nat) : Except Error Chain :=
  if h : sequence < sequenceCount then .ok accessor.chains[sequence]
  else .error (.invalidSlot sequence)

/-- How many pages the accessor keeps in memory: the metapage and the current range
map page. -/
def pins (accessor : Accessor) : Nat := if accessor.current.isSome then 2 else 1

/-- The error for contents of a block that contradict the rest of the index. -/
def corrupted (accessor : Accessor) (block : BlockNumber) (reason : String) : Error :=
  .indexCorrupted accessor.index block reason

/-- The error for a page that is not of the kind that its place demands. -/
def unexpectedPage (accessor : Accessor) (block : BlockNumber) (page : Page) : Error :=
  .unexpectedPageType accessor.index block (pageType page)

end Accessor

end Warehouse.RangeIndex
