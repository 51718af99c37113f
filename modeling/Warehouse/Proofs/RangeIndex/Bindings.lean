import Warehouse.Proofs.RangeIndex.Extension

/-! # Entries and tuples

An index binds a range to a payload when the entry of the range points at a tuple of the
range that holds it. `Linked` says that entries and tuples point at each other: every valid
entry has its tuple and every tuple has its entry. The three changes that operations make on
bindings are one: an entry is redirected, the tuple that it pointed at is dropped and the one
that it points at now is added. -/

namespace Warehouse.RangeIndex

/-- What the pages of an index say about ranges. -/
structure View where
  addressing : Addressing
  /-- The range map page of a table block. -/
  covers : BlockNumber → BlockNumber → Prop
  /-- The valid entries of the range map pages. -/
  entry : BlockNumber → Nat → Option ItemPointer
  /-- The tuples on regular pages. -/
  tuple : ItemPointer → Option (List UInt8)

namespace View

/-- The range that starts at a table block has the payload. -/
def Binds (view : View) (heapBlock : BlockNumber) (payload : List UInt8) : Prop :=
  ∃ block place bytes, view.covers heapBlock block ∧
    view.entry block (view.addressing.slot heapBlock) = some place ∧
    view.tuple place = some bytes ∧ Summary.decode bytes = some ⟨heapBlock, payload⟩

/-- Every table block has at most one range map page, and every entry at most one range. -/
structure Functional (view : View) : Prop where
  covers_unique : ∀ {heapBlock block block'}, view.covers heapBlock block →
    view.covers heapBlock block' → block = block'
  injective : ∀ {heapBlock other block}, view.covers heapBlock block → view.covers other block →
    view.addressing.IsStart heapBlock → view.addressing.IsStart other →
    view.addressing.slot heapBlock = view.addressing.slot other → heapBlock = other

/-- Entries and tuples point at each other. -/
structure Linked (view : View) : Prop where
  pointed : ∀ block index place, view.entry block index = some place →
    ∃ bytes summary, view.tuple place = some bytes ∧ Summary.decode bytes = some summary ∧
      view.addressing.IsStart summary.heapBlock ∧ view.covers summary.heapBlock block ∧
      view.addressing.slot summary.heapBlock = index
  owned : ∀ place bytes, view.tuple place = some bytes →
    ∃ summary block, Summary.decode bytes = some summary ∧
      view.addressing.IsStart summary.heapBlock ∧ view.covers summary.heapBlock block ∧
      view.entry block (view.addressing.slot summary.heapBlock) = some place

variable {view after : View} {heapBlock other mapBlock block block' : BlockNumber} {place : ItemPointer}
  {index index' : Nat} {payload : List UInt8}

/-- No two entries point at one tuple. -/
theorem Linked.entry_unique (linked : view.Linked) (functional : view.Functional)
    (h : view.entry block index = some place) (h' : view.entry block' index' = some place) :
    block = block' ∧ index = index' := by
  obtain ⟨bytes, summary, tuple, decoded, -, covered, slot⟩ := linked.pointed _ _ _ h
  obtain ⟨bytes', summary', tuple', decoded', -, covered', slot'⟩ := linked.pointed _ _ _ h'
  rw [tuple] at tuple'
  obtain rfl := Option.some.inj tuple'
  rw [decoded] at decoded'
  obtain rfl := Option.some.inj decoded'
  exact ⟨functional.covers_unique covered covered', slot.symm.trans slot'⟩

/-- The entry that points at a tuple is that of the tuple's range. -/
theorem Linked.range_of_entry (linked : view.Linked) {bytes : List UInt8} {summary : Summary}
    (entry : view.entry block index = some place) (tuple : view.tuple place = some bytes)
    (decoded : Summary.decode bytes = some summary) :
    view.addressing.IsStart summary.heapBlock ∧ view.covers summary.heapBlock block ∧
      view.addressing.slot summary.heapBlock = index := by
  obtain ⟨bytes', summary', tuple', decoded', start, covered, slot⟩ := linked.pointed _ _ _ entry
  rw [tuple] at tuple'
  obtain rfl := Option.some.inj tuple'
  rw [decoded] at decoded'
  obtain rfl := Option.some.inj decoded'
  exact ⟨start, covered, slot⟩

/-- A range has at most one payload. -/
theorem Binds.unique {payload' : List UInt8} (functional : view.Functional)
    (h : view.Binds heapBlock payload) (h' : view.Binds heapBlock payload') : payload = payload' := by
  obtain ⟨block, place, bytes, covered, entry, tuple, decoded⟩ := h
  obtain ⟨block', place', bytes', covered', entry', tuple', decoded'⟩ := h'
  obtain rfl := functional.covers_unique covered covered'
  rw [entry] at entry'
  obtain rfl := Option.some.inj entry'
  rw [tuple] at tuple'
  obtain rfl := Option.some.inj tuple'
  rw [decoded] at decoded'
  exact congrArg Summary.payload (Option.some.inj decoded')

/-- A range whose entry is valid has a payload. -/
theorem Linked.binds_of_entry (linked : view.Linked) (functional : view.Functional)
    (start : view.addressing.IsStart heapBlock) (covered : view.covers heapBlock block)
    (entry : view.entry block (view.addressing.slot heapBlock) = some place) :
    ∃ bytes payload, view.tuple place = some bytes ∧
      Summary.decode bytes = some ⟨heapBlock, payload⟩ ∧ view.Binds heapBlock payload := by
  obtain ⟨bytes, ⟨heapBlock', payload⟩, tuple, decoded, start', covered', slot⟩ :=
    linked.pointed _ _ _ entry
  obtain rfl := functional.injective covered' covered start' start slot
  exact ⟨bytes, payload, tuple, decoded, block, place, bytes, covered, entry, tuple, decoded⟩

/-- A tuple is the one that the entry of its range points at. -/
theorem Linked.entry_of_tuple (linked : view.Linked) (functional : view.Functional) {bytes : List UInt8}
    (tuple : view.tuple place = some bytes) (decoded : Summary.decode bytes = some ⟨heapBlock, payload⟩)
    (covered : view.covers heapBlock block) :
    view.entry block (view.addressing.slot heapBlock) = some place := by
  obtain ⟨summary, block', decoded', -, covered', entry⟩ := linked.owned _ _ tuple
  rw [decoded] at decoded'
  obtain rfl := Option.some.inj decoded'
  rwa [functional.covers_unique covered covered']

/-! ## More of the range map -/

/-- The later view has the same entries and tuples, and a range map that reaches at least as
far. -/
structure Extends (view after : View) : Prop where
  addressing_eq : after.addressing = view.addressing
  covers : ∀ heapBlock block, view.covers heapBlock block → after.covers heapBlock block
  entry_eq : ∀ block index, after.entry block index = view.entry block index
  tuple_eq : ∀ place, after.tuple place = view.tuple place

theorem Extends.linked (h : Extends view after) (linked : view.Linked) : after.Linked where
  pointed block index place entry := by
    rw [h.entry_eq] at entry
    obtain ⟨bytes, summary, tuple, decoded, start, covered, slot⟩ := linked.pointed _ _ _ entry
    rw [h.addressing_eq, h.tuple_eq]
    exact ⟨bytes, summary, tuple, decoded, start, h.covers _ _ covered, slot⟩
  owned place bytes tuple := by
    rw [h.tuple_eq] at tuple
    obtain ⟨summary, block, decoded, start, covered, entry⟩ := linked.owned _ _ tuple
    rw [h.addressing_eq]
    exact ⟨summary, block, decoded, start, h.covers _ _ covered, by rw [h.entry_eq, entry]⟩

theorem Extends.binds (h : Extends view after) (linked : view.Linked) :
    after.Binds heapBlock payload ↔ view.Binds heapBlock payload := by
  constructor
  · rintro ⟨block, place, bytes, -, entry, tuple, decoded⟩
    rw [h.entry_eq, h.addressing_eq] at entry
    rw [h.tuple_eq] at tuple
    exact ⟨block, place, bytes, (linked.range_of_entry entry tuple decoded).2.1, entry, tuple, decoded⟩
  · rintro ⟨block, place, bytes, covered, entry, tuple, decoded⟩
    exact ⟨block, place, bytes, h.covers _ _ covered, by rw [h.entry_eq, h.addressing_eq, entry],
      by rw [h.tuple_eq, tuple], decoded⟩

/-! ## Redirecting an entry -/

/-- The entry of a range is redirected: the tuple that it pointed at is dropped, and the one
that it points at now, if any, was not there before. -/
structure Redirects (view after : View) (heapBlock mapBlock : BlockNumber)
    (new : Option (ItemPointer × List UInt8 × List UInt8)) : Prop where
  addressing_eq : after.addressing = view.addressing
  start : view.addressing.IsStart heapBlock
  covered : view.covers heapBlock mapBlock
  covers_iff : ∀ heapBlock block, after.covers heapBlock block ↔ view.covers heapBlock block
  entry_same : after.entry mapBlock (view.addressing.slot heapBlock) = new.map Prod.fst
  entry_other : ∀ block index, ¬ (block = mapBlock ∧ index = view.addressing.slot heapBlock) →
    after.entry block index = view.entry block index
  tuple_new : ∀ place bytes payload, new = some (place, bytes, payload) → view.tuple place = none ∧
    after.tuple place = some bytes ∧ Summary.decode bytes = some ⟨heapBlock, payload⟩
  tuple_old : ∀ place, view.entry mapBlock (view.addressing.slot heapBlock) = some place →
    after.tuple place = none ∨ ∃ bytes payload, new = some (place, bytes, payload)
  tuple_other : ∀ place, view.entry mapBlock (view.addressing.slot heapBlock) ≠ some place →
    (∀ bytes payload, new ≠ some (place, bytes, payload)) → after.tuple place = view.tuple place

namespace Redirects

variable {new : Option (ItemPointer × List UInt8 × List UInt8)}

/-- An entry that is not redirected keeps its tuple. -/
theorem tuple_of_entry (h : Redirects view after heapBlock mapBlock new) (linked : view.Linked)
    (functional : view.Functional) (ne : ¬ (block = mapBlock ∧ index = view.addressing.slot heapBlock))
    (entry : view.entry block index = some place) : after.tuple place = view.tuple place := by
  refine h.tuple_other place (fun old => ne (linked.entry_unique functional entry old)) ?_
  intro bytes payload eq
  obtain ⟨bytes', -, tuple, -⟩ := linked.pointed _ _ _ entry
  rw [(h.tuple_new place bytes payload eq).1] at tuple
  cases tuple

theorem linked (h : Redirects view after heapBlock mapBlock new) (linked : view.Linked)
    (functional : view.Functional) : after.Linked where
  pointed block index place entry := by
    rw [h.addressing_eq]
    by_cases here : block = mapBlock ∧ index = view.addressing.slot heapBlock
    · obtain ⟨rfl, rfl⟩ := here
      rw [h.entry_same] at entry
      obtain ⟨⟨place', bytes, payload⟩, eq, rfl⟩ := Option.map_eq_some_iff.mp entry
      obtain ⟨-, tuple, decoded⟩ := h.tuple_new _ _ _ eq
      exact ⟨bytes, _, tuple, decoded, h.start, (h.covers_iff _ _).mpr h.covered, rfl⟩
    · rw [h.entry_other block index here] at entry
      obtain ⟨bytes, summary, tuple, decoded, start, covered, slot⟩ := linked.pointed _ _ _ entry
      rw [h.tuple_of_entry linked functional here entry]
      exact ⟨bytes, summary, tuple, decoded, start, (h.covers_iff _ _).mpr covered, slot⟩
  owned place bytes tuple := by
    rw [h.addressing_eq]
    by_cases fresh : ∃ bytes payload, new = some (place, bytes, payload)
    · obtain ⟨bytes', payload, eq⟩ := fresh
      obtain ⟨-, tuple', decoded⟩ := h.tuple_new _ _ _ eq
      rw [tuple] at tuple'
      obtain rfl := Option.some.inj tuple'
      refine ⟨_, mapBlock, decoded, h.start, (h.covers_iff _ _).mpr h.covered, ?_⟩
      rw [h.entry_same, eq]
      rfl
    · by_cases old : view.entry mapBlock (view.addressing.slot heapBlock) = some place
      · rcases h.tuple_old place old with gone | again
        · rw [gone] at tuple
          cases tuple
        · exact absurd again fresh
      · rw [h.tuple_other place old fun bytes payload eq => fresh ⟨bytes, payload, eq⟩] at tuple
        obtain ⟨summary, block, decoded, start, covered, entry⟩ := linked.owned _ _ tuple
        refine ⟨summary, block, decoded, start, (h.covers_iff _ _).mpr covered, ?_⟩
        rw [h.entry_other, entry]
        rintro ⟨rfl, eq⟩
        rw [eq] at entry
        exact old entry

/-- The range has the new payload, and the other ranges have what they had. -/
theorem binds (h : Redirects view after heapBlock mapBlock new) (linked : view.Linked)
    (functional : view.Functional) :
    after.Binds other payload ↔
      if other = heapBlock then ∃ place bytes, new = some (place, bytes, payload)
      else view.Binds other payload := by
  have after_linked := h.linked linked functional
  constructor
  · rintro ⟨block, place, bytes, covered, entry, tuple, decoded⟩
    have covered := (h.covers_iff _ _).mp covered
    rw [h.addressing_eq] at entry
    by_cases here : block = mapBlock ∧ view.addressing.slot other = view.addressing.slot heapBlock
    · obtain ⟨rfl, slot⟩ := here
      rw [slot, h.entry_same] at entry
      obtain ⟨⟨place', bytes', payload'⟩, eq, rfl⟩ := Option.map_eq_some_iff.mp entry
      obtain ⟨-, tuple', decoded'⟩ := h.tuple_new _ _ _ eq
      rw [tuple] at tuple'
      obtain rfl := Option.some.inj tuple'
      rw [decoded] at decoded'
      obtain ⟨rfl, rfl⟩ := Summary.mk.inj (Option.some.inj decoded')
      rw [if_pos rfl]
      exact ⟨_, _, eq⟩
    · rw [h.entry_other block _ here] at entry
      rw [h.tuple_of_entry linked functional here entry] at tuple
      have ne : other ≠ heapBlock := by
        rintro rfl
        exact here ⟨functional.covers_unique covered h.covered, rfl⟩
      rw [if_neg ne]
      exact ⟨block, place, bytes, covered, entry, tuple, decoded⟩
  · by_cases eq : other = heapBlock
    · subst eq
      rw [if_pos rfl]
      rintro ⟨place, bytes, rfl⟩
      obtain ⟨-, tuple, decoded⟩ := h.tuple_new _ _ _ rfl
      refine ⟨mapBlock, place, bytes, (h.covers_iff _ _).mpr h.covered, ?_, tuple, decoded⟩
      rw [h.addressing_eq, h.entry_same]
      rfl
    · rw [if_neg eq]
      rintro ⟨block, place, bytes, covered, entry, tuple, decoded⟩
      have here : ¬ (block = mapBlock ∧ view.addressing.slot other = view.addressing.slot heapBlock) := by
        rintro ⟨rfl, slot⟩
        have start := (linked.range_of_entry entry tuple decoded).1
        exact eq (functional.injective covered h.covered start h.start slot)
      refine ⟨block, place, bytes, (h.covers_iff _ _).mpr covered, ?_, ?_, decoded⟩
      · rw [h.addressing_eq, h.entry_other block _ here, entry]
      · rw [h.tuple_of_entry linked functional here entry, tuple]

end Redirects

end View

/-! ## The view of an image -/

/-- The valid entry at an index of a range map page. -/
def entryIn (image : Image) (block : BlockNumber) (index : Nat) : Option ItemPointer :=
  match image.page? block with
  | some page =>
      if isMap page ∧ index < entriesPerPage ∧ (entryAt page index).isValid then
        some (entryAt page index)
      else none
  | none => none

/-- The tuple at a place on a regular page. -/
def tupleAt (image : Image) (place : ItemPointer) : Option (List UInt8) :=
  match image.page? place.block with
  | some page => if isRegular page then page.itemAt place.offset.toNat else none
  | none => none

/-- What an image says about ranges. -/
def Image.view (image : Image) (contents : Metapage) : View where
  addressing := contents.addressing
  covers := Covers image contents
  entry := entryIn image
  tuple := tupleAt image

theorem entryIn_of_page {image : Image} {block : BlockNumber} {index : Nat} {page : Page}
    (h : image.page? block = some page) : entryIn image block index =
      if isMap page ∧ index < entriesPerPage ∧ (entryAt page index).isValid then
        some (entryAt page index)
      else none := by
  rw [entryIn, h]

theorem tupleAt_of_page {image : Image} {place : ItemPointer} {page : Page}
    (h : image.page? place.block = some page) :
    tupleAt image place = if isRegular page then page.itemAt place.offset.toNat else none := by
  rw [tupleAt, h]

theorem tupleAt_of_regular {image : Image} {place : ItemPointer} {page : Page}
    (h : image.page? place.block = some page) (regular : Regular page) :
    tupleAt image place = page.itemAt place.offset.toNat := by
  rw [tupleAt_of_page h, if_pos regular.isRegular]

theorem entryIn_of_map {image : Image} {block : BlockNumber} {index : Nat} {page : Page}
    (h : image.page? block = some page) (map : MapPage page) (bound : index < entriesPerPage) :
    entryIn image block index =
      if (entryAt page index).isValid then some (entryAt page index) else none := by
  simp only [entryIn_of_page h, isMap_iff.mpr map.kind, bound, true_and]

theorem tupleAt_eq_some {image : Image} {place : ItemPointer} {bytes : List UInt8}
    (h : tupleAt image place = some bytes) : ∃ page, image.page? place.block = some page ∧
      isRegular page = true ∧ page.itemAt place.offset.toNat = some bytes := by
  rw [tupleAt] at h
  split at h
  · rename_i page at'
    split at h
    · rename_i kind
      exact ⟨page, at', kind, h⟩
    · cases h
  · cases h

theorem entryIn_eq_some {image : Image} {block : BlockNumber} {index : Nat} {place : ItemPointer}
    (h : entryIn image block index = some place) : ∃ page, image.page? block = some page ∧
      isMap page = true ∧ index < entriesPerPage ∧ place.isValid = true ∧ entryAt page index = place := by
  rw [entryIn] at h
  split at h
  · rename_i page at'
    split at h
    · rename_i here
      obtain rfl := Option.some.inj h
      exact ⟨page, at', here.1, here.2.1, here.2.2, rfl⟩
    · cases h
  · cases h

/-- The index is laid out well, and its entries and tuples point at each other. -/
structure Sound (image : Image) (contents : Metapage) : Prop where
  shape : Geometry image contents
  linked : (image.view contents).Linked

/-- The index binds the range that starts at a table block to a payload. -/
def Binds (image : Image) (contents : Metapage) (heapBlock : BlockNumber) (payload : List UInt8) : Prop :=
  (image.view contents).Binds heapBlock payload

theorem Geometry.functional {image : Image} {contents : Metapage} (shape : Geometry image contents) :
    (image.view contents).Functional where
  covers_unique covered covered' := shape.covers_unique covered covered'
  injective covered covered' start start' slot := shape.covers_injective covered covered' start start' slot

end Warehouse.RangeIndex
