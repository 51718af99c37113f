import Warehouse.Proofs.RangeIndex.Bindings
import Warehouse.RangeIndex.Operations

/-! # The changes that operations make

A scene is an index with the log of its changes. Between two moments without locks an
operation changes the scene in steps: it adds a page of zeros, formats such a page, flags a
page, or commits a change that has a log record. `Change` says under which conditions each
kind of record is committed and what the pages are afterwards. Every step keeps the index
sound and its range map in place; what a commit does to the bindings is said by
`Change.effect`. -/

namespace Warehouse

/-- The range whose binding a record changes, with the payload that it has afterwards. -/
def Log.Record.rebinds : Log.Record → Option (BlockNumber × Option (List UInt8))
  | .createIndex .. => none
  | .extendMap .. => none
  | .insert heapBlock _ _ _ _ _ tuple _ =>
      some (heapBlock, (RangeIndex.Summary.decode tuple).map RangeIndex.Summary.payload)
  | .update heapBlock _ _ _ _ _ _ _ tuple _ =>
      some (heapBlock, (RangeIndex.Summary.decode tuple).map RangeIndex.Summary.payload)
  | .desummarize _ _ heapBlock _ _ _ => some (heapBlock, none)

namespace RangeIndex

/-- The bindings that an operation is called to make: which range it may bind to a payload, or
leave without one. -/
abbrev Rights := BlockNumber → Option (List UInt8) → Prop

namespace Rights

/-- The rights of an operation that makes no binding of its own. -/
protected def none : Rights := fun _ _ => False

/-- The rights of all operations together. -/
protected def all : Rights := fun _ _ => True

/-- The right to bind one range. -/
def only (heapBlock : BlockNumber) (new : Option (List UInt8)) : Rights :=
  fun other new' => other = heapBlock ∧ new' = new

end Rights

/-- Whether an operation is alone on the relation or others run when it holds no lock. Among
others it changes no binding but those that it has the right to. Chains get one number after the
other, unless somebody leaves gaps. -/
inductive Mode where
  | solo
  | shared (rights : Rights) (gaps : Bool := false)

theorem Mode.shared_ne_solo (rights : Rights) {gaps : Bool} : Mode.shared rights gaps ≠ .solo := by
  intro eq
  cases eq

/-- Nobody leaves gaps between the numbers of a chain. -/
def Mode.Dense : Mode → Prop
  | .solo => True
  | .shared _ gaps => gaps = false

/-- The log of an index: where it starts, and its records with their positions. -/
structure Journal where
  start : Nat
  records : List (Lsn × Log.Record)

namespace Journal

/-- Where the log ends. -/
def stop (journal : Journal) : Nat :=
  journal.start + (journal.records.map fun entry => (Log.encodeFrame entry.2).length).sum

/-- The log position of the next record. -/
def position (journal : Journal) (record : Log.Record) : Lsn :=
  UInt64.ofNat (journal.stop + (Log.encodeFrame record).length)

/-- The log with one more record. -/
def push (journal : Journal) (record : Log.Record) : Journal :=
  ⟨journal.start, journal.records ++ [(journal.position record, record)]⟩

theorem stop_push (journal : Journal) (record : Log.Record) :
    (journal.push record).stop = journal.stop + (Log.encodeFrame record).length := by
  simp only [stop, push, List.map_append, List.map_cons, List.map_nil, List.sum_append, List.sum_cons,
    List.sum_nil, Nat.add_zero, Nat.add_assoc]

theorem stop_lt_push (journal : Journal) (record : Log.Record) :
    journal.stop < (journal.push record).stop := by
  have frame : 0 < (Log.encodeFrame record).length := by
    simp only [Log.encodeFrame, List.length_append, length_littleEndian]
    omega
  rw [stop_push]
  omega

end Journal

/-- The pages of an index and the log of their changes, if there is one. -/
structure Scene where
  image : Image
  log : Option Journal

/-- Replace pages one after the other. -/
def Image.putAll (image : Image) (pages : List (BlockNumber × Page)) : Image :=
  pages.foldl (fun image entry => image.put entry.1 entry.2) image

namespace Scene

/-- The page with the log position of the record that describes its change. -/
def stamp (scene : Scene) (record : Log.Record) (page : Page) : Page :=
  match scene.log with
  | none => page
  | some journal => page.setLsn (journal.position record)

/-- Replace pages and log it. -/
def commit (scene : Scene) (record : Log.Record) (pages : List (BlockNumber × Page)) : Scene :=
  ⟨scene.image.putAll (pages.map fun entry => (entry.1, scene.stamp record entry.2)),
    scene.log.map fun journal => journal.push record⟩

/-- There are no pages, or the log has to account for all of them. Alone, an operation does not
meet pages then that others add. -/
def Reserved (scene : Scene) : Prop :=
  scene.image.size = 0 ∨ ∃ journal, scene.log = some journal ∧ journal.stop < 2 ^ 64

/-- The page is not as the log says: it was never logged, or it is flagged. -/
def Loose (scene : Scene) (block : BlockNumber) : Prop :=
  ∃ journal page, scene.log = some journal ∧ journal.stop < 2 ^ 64 ∧
    scene.image.page? block = some page ∧ (page.lsn = 0 ∨ isEvacuating page = true)

end Scene

/-- The page with the flag that keeps new summaries away. -/
def flagged (page : Page) : Page := setPageFlags page (pageFlags page ||| evacuateFlag)

/-- A regular page that takes new summaries. A page that was initialised for them is still
empty. -/
structure Site (mode : Mode) (scene : Scene) (block : BlockNumber) (page : Page) (fresh : Bool) :
    Prop where
  at_block : scene.image.page? block = some page
  regular : Regular page
  takes : isEvacuating page = false
  fresh_eq : fresh = true → page = freshPage regularType
  grounded : mode = .solo → fresh = false → ¬ scene.Loose block

/-- The last page of a chain with its link to the page added after it. -/
inductive LinkedTail (image : Image) (last block : BlockNumber) : List (BlockNumber × Page) → Prop
  | none (empty : last = invalidBlock) : LinkedTail image last block []
  | some {tail : Page} (at_last : image.page? last = some tail) :
      LinkedTail image last block [(last, setNextMapPage tail block)]

theorem Chains.set_eq_setChain (chains : Vector Chain sequenceCount) {sequence : Nat} (bound : sequence < sequenceCount)
    (chain : Chain) : chains.set sequence chain bound = Chains.setChain chains sequence chain := by
  refine Vector.ext fun i inside => ?_
  rw [Chains.setChain, Vector.getElem_set, Vector.getElem_setIfInBounds]

/-- The contents of the metapage when a chain has got a page. -/
def Metapage.withGrown (contents : Metapage) (sequence : Nat) (block : BlockNumber) (number : UInt32) :
    Metapage :=
  { contents with
    chains := Chains.setChain contents.chains sequence ((contents.chain sequence).grown block number) }

/-- The conditions under which a record is logged, the pages that it describes, and the
contents of the metapage afterwards. -/
inductive Change (mode : Mode) (scene : Scene) (contents : Metapage) :
    Log.Record → List (BlockNumber × Page) → Metapage → Prop
  | extendPlain {block : BlockNumber} {page metapage : Page}
      (plain : contents.appendOnly = false)
      (next : block.toNat = contents.lastMapPage.toNat + 1)
      (at_block : scene.image.page? block = some page)
      (free : page = .zero ∨ Regular page ∧ ∀ offset, page.itemAt offset = none)
      (at_meta : scene.image.page? metaBlock = some metapage) :
      Change mode scene contents (.extendMap block false 0 0 invalidBlock)
        [(metaBlock, { contents with lastMapPage := block }.write metapage), (block, freshPage mapType)]
        { contents with lastMapPage := block }
  | extendChain {sequence : Nat} {block : BlockNumber} {number : UInt32} {metapage : Page}
      {linked : List (BlockNumber × Page)}
      (chained : contents.appendOnly = true)
      (bound : sequence < sequenceCount)
      (beyond : (contents.chain sequence).lastLogical < number)
      (dense : mode.Dense → number.toNat = (contents.chain sequence).lastLogical.toNat + 1)
      (free : scene.image.page? block = some .zero)
      (at_meta : scene.image.page? metaBlock = some metapage)
      (tail : LinkedTail scene.image (contents.chain sequence).last block linked) :
      Change mode scene contents
        (.extendMap block true (UInt32.ofNat sequence) number (contents.chain sequence).last)
        ([(metaBlock, (contents.withGrown sequence block number).write metapage),
          (block, setLogicalPage (freshPage mapType) number)] ++ linked)
        (contents.withGrown sequence block number)
  | insert {heapBlock mapBlock block : BlockNumber} {offset : OffsetNumber} {tuple payload : List UInt8}
      {fresh : Bool} {page page' mapPage : Page}
      (start : contents.addressing.IsStart heapBlock)
      (decoded : Summary.decode tuple = some ⟨heapBlock, payload⟩)
      (covered : Covers scene.image contents heapBlock mapBlock)
      (site : Site mode scene block page fresh)
      (added : page.addItem tuple (some offset.toNat) = .ok (some (offset.toNat, page')))
      (stored : page.Stored offset.toNat tuple page')
      (valid : (ItemPointer.mk block offset).isValid = true)
      (at_map : scene.image.page? mapBlock = some mapPage)
      (unbound : (entryAt mapPage (contents.addressing.slot heapBlock)).isValid = false) :
      Change mode scene contents
        (.insert heapBlock contents.pagesPerRange contents.appendOnly mapBlock block offset tuple fresh)
        [(block, page'),
          (mapBlock, withEntry mapPage (contents.addressing.slot heapBlock) ⟨block, offset⟩)]
        contents
  | update {heapBlock mapBlock : BlockNumber} {old new : ItemPointer} {tuple payload : List UInt8}
      {fresh : Bool} {oldPage oldPage' page page' mapPage : Page}
      (start : contents.addressing.IsStart heapBlock)
      (decoded : Summary.decode tuple = some ⟨heapBlock, payload⟩)
      (covered : Covers scene.image contents heapBlock mapBlock)
      (at_old : scene.image.page? old.block = some oldPage)
      (regular : Regular oldPage)
      (removed : oldPage.deleteItem old.offset.toNat = .ok oldPage')
      (deleted : oldPage.Deleted old.offset.toNat oldPage')
      (ne : old.block ≠ new.block)
      (site : Site mode scene new.block page fresh)
      (added : page.addItem tuple (some new.offset.toNat) = .ok (some (new.offset.toNat, page')))
      (stored : page.Stored new.offset.toNat tuple page')
      (valid : new.isValid = true)
      (at_map : scene.image.page? mapBlock = some mapPage)
      (bound : entryAt mapPage (contents.addressing.slot heapBlock) = old)
      (valid_old : old.isValid = true) :
      Change mode scene contents
        (.update heapBlock contents.pagesPerRange contents.appendOnly mapBlock old.block old.offset
          new.block new.offset tuple fresh)
        [(old.block, oldPage'), (new.block, page'),
          (mapBlock, withEntry mapPage (contents.addressing.slot heapBlock) new)]
        contents
  | desummarize {heapBlock mapBlock : BlockNumber} {place : ItemPointer} {page page' mapPage : Page}
      (start : contents.addressing.IsStart heapBlock)
      (covered : Covers scene.image contents heapBlock mapBlock)
      (at_block : scene.image.page? place.block = some page)
      (regular : Regular page)
      (removed : page.deleteItem place.offset.toNat = .ok page')
      (deleted : page.Deleted place.offset.toNat page')
      (at_map : scene.image.page? mapBlock = some mapPage)
      (bound : entryAt mapPage (contents.addressing.slot heapBlock) = place)
      (valid : place.isValid = true) :
      Change mode scene contents
        (.desummarize contents.pagesPerRange contents.appendOnly heapBlock mapBlock place.block place.offset)
        [(mapBlock, withEntry mapPage (contents.addressing.slot heapBlock) .invalid), (place.block, page')]
        contents

/-- A change that rebinds a range finds the page with its entry. -/
theorem Change.covers {mode : Mode} {scene : Scene} {contents contents' : Metapage} {record : Log.Record}
    {pages : List (BlockNumber × Page)} {heapBlock : BlockNumber} {new : Option (List UInt8)}
    (change : Change mode scene contents record pages contents') (rebinds : record.rebinds = some (heapBlock, new)) :
    ∃ block, Covers scene.image contents heapBlock block := by
  cases change with
  | extendPlain => cases rebinds
  | extendChain => cases rebinds
  | insert start decoded covered =>
      rw [Log.Record.rebinds, decoded] at rebinds
      obtain ⟨rfl, -⟩ := Prod.mk.inj (Option.some.inj rebinds)
      exact ⟨_, covered⟩
  | update start decoded covered =>
      rw [Log.Record.rebinds, decoded] at rebinds
      obtain ⟨rfl, -⟩ := Prod.mk.inj (Option.some.inj rebinds)
      exact ⟨_, covered⟩
  | desummarize start covered =>
      obtain ⟨rfl, -⟩ := Prod.mk.inj (Option.some.inj rebinds)
      exact ⟨_, covered⟩

/-- Among others an operation rebinds a range only if it has the right to, or to the payload
that the range has anyway. -/
def Mode.Permits : Mode → Scene → Metapage → Log.Record → Prop
  | .solo, _, _, _ => True
  | .shared rights _, scene, contents, record => ∀ heapBlock new, record.rebinds = some (heapBlock, new) →
      rights heapBlock new ∨ ∀ payload, new = some payload ↔ Binds scene.image contents heapBlock payload

/-- An operation has the right to change the binding of a range, or it is alone. -/
def Mode.Grants (mode : Mode) (heapBlock : BlockNumber) (new : Option (List UInt8)) : Prop :=
  ∀ rights gaps, mode = .shared rights gaps → rights heapBlock new

theorem Mode.Grants.permits {mode : Mode} {heapBlock : BlockNumber} {new : Option (List UInt8)} {scene : Scene}
    {contents : Metapage} {record : Log.Record} (grants : mode.Grants heapBlock new)
    (rebinds : record.rebinds = some (heapBlock, new)) : mode.Permits scene contents record := by
  cases mode with
  | solo => exact trivial
  | shared rights =>
      intro changed new' eq
      obtain ⟨rfl, rfl⟩ := Prod.mk.inj (Option.some.inj (eq.symm.trans rebinds))
      exact .inl (grants rights _ rfl)

/-- What happens to a scene between two moments without locks. -/
inductive Advance (mode : Mode) : Scene → Scene → Prop
  | grow {scene : Scene} (room : scene.image.size + 1 < 2 ^ 32) :
      Advance mode scene ⟨scene.image.push .zero, scene.log⟩
  | format {scene : Scene} {block : BlockNumber} (first : block ≠ metaBlock)
      (at_block : scene.image.page? block = some .zero) :
      Advance mode scene ⟨scene.image.put block (freshPage regularType), scene.log⟩
  | flag {scene : Scene} {block : BlockNumber} {page : Page}
      (at_block : scene.image.page? block = some page) (regular : Regular page) :
      Advance mode scene ⟨scene.image.put block (flagged page), scene.log⟩
  | commit {scene : Scene} {contents contents' : Metapage} {record : Log.Record}
      {pages : List (BlockNumber × Page)} (sound : Sound scene.image contents)
      (change : Change mode scene contents record pages contents')
      (permitted : mode.Permits scene contents record) :
      Advance mode scene (scene.commit record pages)

/-- What happens to a scene in any number of steps. -/
abbrev Evolves (mode : Mode) : Scene → Scene → Prop := Relation.ReflTransGen (Advance mode)

/-! ## The image after a commit -/

namespace Image

variable {image : Image} {pages : List (BlockNumber × Page)} {block : BlockNumber} {page : Page}

@[simp]
theorem size_putAll (image : Image) (pages : List (BlockNumber × Page)) :
    (image.putAll pages).size = image.size := by
  induction pages generalizing image with
  | nil => rfl
  | cons entry pages ih => rw [putAll, List.foldl_cons, ← putAll, ih, size_put]

theorem page?_putAll_other (h : block ∉ pages.map Prod.fst) :
    (image.putAll pages).page? block = image.page? block := by
  induction pages generalizing image with
  | nil => rfl
  | cons entry pages ih =>
      rw [List.map_cons, List.mem_cons, not_or] at h
      rw [putAll, List.foldl_cons, ← putAll, ih h.2, page?_put_other h.1]

theorem page?_putAll_mem (nodup : (pages.map Prod.fst).Nodup) (h : (block, page) ∈ pages)
    (inside : block.toNat < image.size) : (image.putAll pages).page? block = some page := by
  induction pages generalizing image with
  | nil => exact absurd h List.not_mem_nil
  | cons entry pages ih =>
      rw [List.map_cons, List.nodup_cons] at nodup
      rw [putAll, List.foldl_cons, ← putAll]
      rcases List.mem_cons.mp h with rfl | h
      · obtain ⟨before, at'⟩ := exists_page? inside
        rw [page?_putAll_other nodup.1, page?_put_same _ at']
      · exact ih nodup.2 h (by rw [size_put]; exact inside)

end Image

namespace Scene

variable {scene : Scene} {record : Log.Record} {pages : List (BlockNumber × Page)} {block : BlockNumber}
  {page before : Page}

theorem sameOn_stamp (scene : Scene) (record : Log.Record) (page : Page) :
    Page.SameOn 8 pageSize (scene.stamp record page) page := by
  rw [stamp]
  split
  · exact .refl _ _ _
  · exact Page.sameOn_setLsn _ _ (Nat.le_refl _)

theorem regular_stamp (scene : Scene) (record : Log.Record) (regular : Regular page) :
    Regular (scene.stamp record page) ∧
    (∀ offset, (scene.stamp record page).itemAt offset = page.itemAt offset) ∧
    isEvacuating (scene.stamp record page) = isEvacuating page := by
  have same := scene.sameOn_stamp record page
  obtain ⟨regular', -, -, -, items⟩ := regular.congr (same.mono (Nat.le_refl _) (by decide))
    (same.mono (by decide) (Nat.le_refl _))
  refine ⟨regular', items, ?_⟩
  rw [isEvacuating, isEvacuating, (links_congr (same.mono (by decide) (Nat.le_refl _))).2.2.2]

theorem map_stamp (scene : Scene) (record : Log.Record) (map : MapPage page) : MapPage (scene.stamp record page) ∧
    nextMapPage (scene.stamp record page) = nextMapPage page ∧
    logicalPageOf (scene.stamp record page) = logicalPageOf page ∧
    ∀ index, index < entriesPerPage → entryAt (scene.stamp record page) index = entryAt page index := by
  have same := scene.sameOn_stamp record page
  obtain ⟨kind, next, number, -⟩ := links_congr (same.mono (by decide) (Nat.le_refl _))
  refine ⟨⟨kind.trans map.kind, ?_⟩, next, number, fun index bound => ?_⟩
  · rw [isNew_congr (same.mono (by decide) (by decide)), map.ready]
  · exact entryAt_congr bound (same.mono (by decide) (by decide))

theorem size_commit : (scene.commit record pages).image.size = scene.image.size := by
  simp only [commit, Image.size_putAll]

theorem blocks_commit : (pages.map fun entry => (entry.1, scene.stamp record entry.2)).map Prod.fst =
    pages.map Prod.fst := by
  simp only [List.map_map, Function.comp_def]

theorem page?_commit_other (h : block ∉ pages.map Prod.fst) :
    (scene.commit record pages).image.page? block = scene.image.page? block :=
  Image.page?_putAll_other (by rwa [blocks_commit])

theorem page?_commit_mem (record : Log.Record) (page : Page) (nodup : (pages.map Prod.fst).Nodup)
    (h : (block, page) ∈ pages)
    (at' : scene.image.page? block = some before) :
    (scene.commit record pages).image.page? block = some (scene.stamp record page) :=
  Image.page?_putAll_mem (by rwa [blocks_commit])
    (List.mem_map.mpr ⟨_, h, rfl⟩) (Image.lt_of_page? at')

end Scene

end RangeIndex

end Warehouse
