import Warehouse.RangeIndex.Layout

/-! # The metapage

Block zero of an index says how the table is cut into ranges, how far the range
map of a plain table reaches, and where the chains of an append-only table begin
and end. -/

namespace Warehouse.RangeIndex

/-- The chain of range map pages of one block sequence. -/
structure Chain where
  first : BlockNumber
  last : BlockNumber
  /-- The number of the last page within the chain. -/
  lastLogical : UInt32
  deriving DecidableEq, Repr

namespace Chain

/-- The chain without pages. -/
def empty : Chain := ⟨invalidBlock, invalidBlock, 0⟩

/-- Whether the chain has no pages. -/
def isEmpty (chain : Chain) : Bool := chain.first == invalidBlock

/-- The twelve bytes of a chain. -/
def encode (chain : Chain) : List UInt8 :=
  littleEndian 4 chain.first.toNat ++ littleEndian 4 chain.last.toNat ++
    littleEndian 4 chain.lastLogical.toNat

end Chain

/-- The number by which a metapage is recognised. -/
def metaMagic : UInt32 := 0xA8109CFA

/-- The version of the index format. -/
def currentVersion : UInt32 := 1

/-- The block of the metapage. -/
def metaBlock : BlockNumber := 0

/-- Size of the fields before the chains. -/
def metaFixedSize : Nat := 20

/-- Size of a chain. -/
def chainSize : Nat := 12

/-- Size of everything stored on the metapage. -/
def metaSize : Nat := metaFixedSize + sequenceCount * chainSize

/-- The contents of the metapage. -/
structure Metapage where
  magic : UInt32
  version : UInt32
  pagesPerRange : UInt32
  /-- The last range map page of a plain table; zero when there is none. -/
  lastMapPage : BlockNumber
  appendOnly : Bool
  chains : Vector Chain sequenceCount
  deriving DecidableEq

namespace Metapage

/-- The contents for an index without range map pages. -/
def new (pagesPerRange : UInt32) (appendOnly : Bool) : Metapage :=
  ⟨metaMagic, currentVersion, pagesPerRange, metaBlock, appendOnly,
    Vector.replicate sequenceCount .empty⟩

/-- The rule that assigns table blocks to ranges. -/
def addressing (contents : Metapage) : Addressing :=
  ⟨contents.pagesPerRange, contents.appendOnly⟩

/-- The chain stored for a block sequence. -/
def chainAt (page : Page) (sequence : Fin sequenceCount) : Chain :=
  have bound : sequence.val < 128 := sequence.isLt
  let pos := 44 + sequence.val * 12
  ⟨page.word32 pos (by simp only [pos, pageSize]; omega),
    page.word32 (pos + 4) (by simp only [pos, pageSize]; omega),
    page.word32 (pos + 8) (by simp only [pos, pageSize]; omega)⟩

/-- Read the metapage of the index with the given name. -/
def read (page : Page) (index : String) (block : BlockNumber) : Except Error Metapage :=
  if pageType page ≠ metaType then
    .error (.unexpectedPageType index block (pageType page))
  else
    let magic := page.word32 24
    if magic ≠ metaMagic then
      .error (.indexCorrupted index block s!"bad metapage magic 0x{hexUpper 8 magic.toNat}")
    else
      .ok ⟨magic, page.word32 28, page.word32 32, page.word32 36,
        page.byte 40 (by decide) != 0, Vector.ofFn (chainAt page)⟩

/-- The bytes stored for the contents. -/
def encode (contents : Metapage) : List UInt8 :=
  littleEndian 4 contents.magic.toNat ++ littleEndian 4 contents.version.toNat ++
    littleEndian 4 contents.pagesPerRange.toNat ++ littleEndian 4 contents.lastMapPage.toNat ++
    [if contents.appendOnly then 1 else 0, 0, 0, 0] ++ contents.chains.toList.flatMap Chain.encode

theorem length_encode (contents : Metapage) : contents.encode.length = metaSize := by
  have chains (list : List Chain) : (list.flatMap Chain.encode).length = list.length * 12 := by
    induction list with
    | nil => rfl
    | cons chain rest ih => simp [Chain.encode, ih]; omega
  simp only [encode, List.length_append, length_littleEndian, chains, Vector.length_toList]
  rfl

/-- Store the contents on a page. The end of the line pointer array moves behind
them, so that whatever compresses the gap keeps them. -/
def write (contents : Metapage) (page : Page) : Page :=
  (page.patch headerSize contents.encode (by rw [length_encode]; decide)).setLower
    (UInt16.ofNat (headerSize + metaSize))

/-- The metapage of a new index. -/
def initial (pagesPerRange : UInt32) (appendOnly : Bool) : Page :=
  (new pagesPerRange appendOnly).write (freshPage metaType)

end Metapage

end Warehouse.RangeIndex
