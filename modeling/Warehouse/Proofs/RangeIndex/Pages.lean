import Warehouse.Proofs.Page.Updates
import Warehouse.RangeIndex.RangeMap

/-! # The kinds of pages of a range index

A regular page is a map from offsets to tuples and a range map page is a map from indices
to entries. Both keep their kind under every change that operations make on them. -/

namespace Warehouse

namespace Page

@[simp]
theorem byte_zero (pos : Nat) (h : pos < pageSize) : zero.byte pos h = 0 := by
  simp only [zero, byte, ByteArray.get]
  exact Array.getElem_replicate ..

theorem slice_eq_zeros {page : Page} {pos count : Nat} (h : pos + count ≤ pageSize)
    (zeros : ∀ i (hi : i < pageSize), pos ≤ i → i < pos + count → page.byte i hi = 0) :
    page.slice pos count h = List.replicate count 0 := by
  apply List.ext_getElem (by simp)
  intro i hi hi'
  simp only [length_slice] at hi
  rw [getElem_slice, List.getElem_replicate]
  exact zeros _ _ (by omega) (by omega)

theorem ofLittleEndian_zeros (count : Nat) : ofLittleEndian (List.replicate count 0) = 0 := by
  induction count with
  | zero => rfl
  | succ count ih =>
      rw [List.replicate_succ, ofLittleEndian, ih]
      rfl

theorem slice_zero (pos count : Nat) (h : pos + count ≤ pageSize) :
    zero.slice pos count h = List.replicate count 0 :=
  slice_eq_zeros h fun _ _ _ _ => byte_zero _ _

@[simp]
theorem word16_zero (pos : Nat) (h : pos + 2 ≤ pageSize) : zero.word16 pos h = 0 := by
  rw [word16, slice_zero, ofLittleEndian_zeros]
  rfl

@[simp]
theorem word32_zero (pos : Nat) (h : pos + 4 ≤ pageSize) : zero.word32 pos h = 0 := by
  rw [word32, slice_zero, ofLittleEndian_zeros]
  rfl

@[simp]
theorem lsn_zero : zero.lsn = 0 := by
  rw [lsn, slice_zero, ofLittleEndian_zeros]
  rfl

theorem isNew_zero : zero.isNew = true := by
  simp [isNew, upper]

end Page

namespace RangeIndex

/-! ## Regular pages -/

/-- A page that stores summaries. -/
structure Regular (page : Page) : Prop where
  kind : pageType page = regularType
  packed : page.Packed
  special_eq : page.special.toNat = 32752

/-- A page of the range map. -/
structure MapPage (page : Page) : Prop where
  kind : pageType page = mapType
  ready : page.isNew = false

/-- The summary at an offset of a page. -/
def summaryOn (page : Page) (offset : OffsetNumber) : Option Summary :=
  (page.itemAt offset.toNat).bind Summary.decode

theorem isRegular_iff {page : Page} : isRegular page = true ↔ pageType page = regularType := by
  simp [isRegular]

theorem isMap_iff {page : Page} : isMap page = true ↔ pageType page = mapType := by
  simp [isMap]

namespace Regular

variable {page after : Page}

theorem isRegular (regular : Regular page) : RangeIndex.isRegular page = true :=
  isRegular_iff.mpr regular.kind

theorem not_map (regular : Regular page) : ¬ MapPage page := by
  intro map
  exact absurd (regular.kind.symm.trans map.kind) (by decide)

theorem ne_zero (regular : Regular page) : page ≠ .zero := by
  rintro rfl
  exact absurd regular.packed.ready (by simp [Page.isNew_zero])

theorem summaryAt_eq (regular : Regular page) (offset : OffsetNumber) :
    RangeMap.summaryAt page offset = .ok (summaryOn page offset) := by
  simp only [RangeMap.summaryAt, regular.packed.item_eq, bind, Except.bind, pure, Except.pure, summaryOn]

/-- The page stays regular when its log position or its flags change. -/
theorem congr (regular : Regular page) (front : Page.SameOn 8 32764 after page)
    (kind : Page.SameOn 32766 pageSize after page) :
    Regular after ∧ after.maxOffset = page.maxOffset ∧ after.upper = page.upper ∧
      after.lower = page.lower ∧ ∀ offset, after.itemAt offset = page.itemAt offset := by
  have same : Page.SameOn 8 page.special.toNat after page :=
    front.mono (Nat.le_refl _) (by rw [regular.special_eq]; decide)
  obtain ⟨packed, special, max_eq, items⟩ := regular.packed.congr same
  refine ⟨⟨?_, packed, by rw [special, regular.special_eq]⟩, max_eq, ?_, ?_, items⟩
  · exact (kind.word16_eq (Nat.le_refl _) (Nat.le_refl _) _).trans regular.kind
  · exact front.upper_eq (by decide) (by decide)
  · exact front.lower_eq (by decide) (by decide)

/-- A change of the items alone keeps the page regular. -/
theorem of_frame (regular : Regular page) (packed : after.Packed) (frame : after.SameFrame page) :
    Regular after := by
  have special : Page.SameOn 32752 pageSize after page := by
    have := frame.special
    rwa [regular.special_eq] at this
  refine ⟨?_, packed, by rw [frame.special_eq, regular.special_eq]⟩
  exact (special.word16_eq (by decide) (Nat.le_refl _) _).trans regular.kind

theorem isEvacuating_of_frame (regular : Regular page) (frame : after.SameFrame page) :
    isEvacuating after = isEvacuating page := by
  have special : Page.SameOn 32752 pageSize after page := by
    have := frame.special
    rwa [regular.special_eq] at this
  have flags : pageFlags after = pageFlags page :=
    special.word16_eq (by decide) (by decide) _
  rw [isEvacuating, isEvacuating, flags]

/-- No tuple on a regular page is longer than the largest one. -/
theorem length_le (regular : Regular page) {offset : Nat} {bytes : List UInt8}
    (h : page.itemAt offset = some bytes) : bytes.length ≤ maxTupleSize := by
  have packed := regular.packed
  have bounds := packed.offset_of_itemAt h
  have used : (page.pointerAt offset).isUsed := by
    rw [← packed.isSome_itemAt, h]
    rfl
  have lower := packed.lower_eq
  have lower_le := packed.lower_le_upper
  have special := regular.special_eq
  rw [← packed.length_pointerAt h]
  by_cases empty : (page.pointerAt offset).length.toNat = 0
  · omega
  · have inside := packed.inside offset used (Nat.pos_of_ne_zero empty)
    simp only [headerSize, Page.pointerSize, Page.align, maxTupleSize, pageSize, specialSize] at *
    omega

end Regular

/-! ## Fresh pages -/

theorem emptyPage_sameOn_zero {first last : Nat} (apart : last ≤ 12 ∨ 20 ≤ first) :
    Page.SameOn first last emptyPage .zero := by
  rw [emptyPage, Page.blank, Page.setLower, Page.setUpper]
  refine (Page.sameOn_setWord16 _ _ _ _ (by omega)).trans ?_
  refine (Page.sameOn_setWord16 _ _ _ _ (by omega)).trans ?_
  refine (Page.sameOn_setWord16 _ _ _ _ (by omega)).trans ?_
  exact Page.sameOn_setWord16 _ _ _ _ (by omega)

theorem freshPage_sameOn_empty (kind : UInt16) {first last : Nat}
    (apart : last ≤ 32756 ∨ (32760 ≤ first ∧ last ≤ 32766) ∨ 32768 ≤ first) :
    Page.SameOn first last (freshPage kind) emptyPage := by
  simp only [freshPage]
  split
  · exact (Page.sameOn_setWord32 _ _ _ _ (by omega)).trans (Page.sameOn_setWord16 _ _ _ _ (by omega))
  · exact Page.sameOn_setWord16 _ _ _ _ (by omega)

theorem freshPage_sameOn_zero (kind : UInt16) {first last : Nat} (low : last ≤ 12 ∨ 20 ≤ first)
    (high : last ≤ 32756 ∨ (32760 ≤ first ∧ last ≤ 32766) ∨ 32768 ≤ first) :
    Page.SameOn first last (freshPage kind) .zero :=
  (freshPage_sameOn_empty kind high).trans (emptyPage_sameOn_zero low)

@[simp]
theorem lower_emptyPage : emptyPage.lower = 24 :=
  Page.lower_blank _

@[simp]
theorem upper_emptyPage : emptyPage.upper = 32752 :=
  Page.upper_blank _

@[simp]
theorem special_emptyPage : emptyPage.special = 32752 :=
  Page.special_blank _

@[simp]
theorem lower_freshPage (kind : UInt16) : (freshPage kind).lower = 24 :=
  ((freshPage_sameOn_empty kind (.inl (Nat.le_refl _))).lower_eq (Nat.zero_le _) (by decide)).trans
    lower_emptyPage

@[simp]
theorem upper_freshPage (kind : UInt16) : (freshPage kind).upper = 32752 :=
  ((freshPage_sameOn_empty kind (.inl (Nat.le_refl _))).upper_eq (Nat.zero_le _) (by decide)).trans
    upper_emptyPage

@[simp]
theorem special_freshPage (kind : UInt16) : (freshPage kind).special = 32752 :=
  ((freshPage_sameOn_empty kind (.inl (Nat.le_refl _))).special_eq (Nat.zero_le _) (by decide)).trans
    special_emptyPage

@[simp]
theorem lsn_freshPage (kind : UInt16) : (freshPage kind).lsn = 0 :=
  ((freshPage_sameOn_zero kind (.inl (Nat.le_refl _)) (.inl (by decide))).lsn_eq (Nat.zero_le _)
    (by decide)).trans Page.lsn_zero

@[simp]
theorem maxOffset_freshPage (kind : UInt16) : (freshPage kind).maxOffset = 0 := by
  rw [Page.maxOffset, lower_freshPage]
  rfl

@[simp]
theorem pageType_freshPage (kind : UInt16) : pageType (freshPage kind) = kind := by
  simp only [pageType, freshPage]
  split
  · rw [setNextMapPage, Page.word16_setWord32_apart _ _ _ _ _ _ (by decide),
      Page.word16_setWord16_same]
  · rw [Page.word16_setWord16_same]

@[simp]
theorem pageFlags_freshPage (kind : UInt16) : pageFlags (freshPage kind) = 0 :=
  ((freshPage_sameOn_zero kind (.inr (by decide)) (.inr (.inl ⟨Nat.le_refl _, Nat.le_refl _⟩))).word16_eq
    (by decide) (by decide) _).trans (Page.word16_zero _ _)

theorem isEvacuating_freshPage (kind : UInt16) : isEvacuating (freshPage kind) = false := by
  simp [isEvacuating]

theorem isNew_freshPage (kind : UInt16) : (freshPage kind).isNew = false := by
  simp [Page.isNew]

theorem pointerAt_freshPage (kind : UInt16) (offset : Nat) :
    (freshPage kind).pointerAt offset = .unused := by
  refine Page.pointerAt_outside ?_
  rw [maxOffset_freshPage]
  omega

theorem packed_freshPage (kind : UInt16) : (freshPage kind).Packed := by
  constructor
  · simp [headerSize]
  · simp
  · simp
  · simp [pageSize]
  all_goals
    intro offset
    simp [pointerAt_freshPage]

theorem regular_freshPage : Regular (freshPage regularType) :=
  ⟨pageType_freshPage _, packed_freshPage _, by simp⟩

theorem itemAt_freshPage (kind : UInt16) (offset : Nat) : (freshPage kind).itemAt offset = none := by
  rw [(packed_freshPage kind).itemAt_eq_none, pointerAt_freshPage]
  decide

theorem mapPage_freshPage : MapPage (freshPage mapType) :=
  ⟨pageType_freshPage _, isNew_freshPage _⟩

@[simp]
theorem nextMapPage_freshPage : nextMapPage (freshPage mapType) = invalidBlock := by
  simp only [nextMapPage, freshPage, if_true, setNextMapPage, Page.word32_setWord32_same]

/-! ## Entries of the range map -/

theorem ItemPointer.length_encode (place : ItemPointer) : place.encode.length = entrySize := by
  simp [encode, entrySize]

theorem Summary.length_encode (heapBlock : BlockNumber) (payload : List UInt8) :
    (Summary.encode ⟨heapBlock, payload⟩).length = payload.length + 4 := by
  rw [encode, List.length_append, length_littleEndian, Nat.add_comm]

theorem ItemPointer.decode_encode (place : ItemPointer) : decode place.encode = place := by
  have block := place.block.toNat_lt
  have offset := place.offset.toNat_lt
  have high : place.encode.take 2 = littleEndian 2 (place.block.toNat / UInt16.size) := by
    simp [encode]
  have low : (place.encode.drop 2).take 2 = littleEndian 2 (place.block.toNat % UInt16.size) := by
    simp [encode]
  have last : (place.encode.drop 4).take 2 = littleEndian 2 place.offset.toNat := by
    have : place.encode.drop 4 = littleEndian 2 place.offset.toNat := by
      rw [encode, List.drop_append_of_le_length (by simp)]
      simp
    rw [this, List.take_of_length_le (by simp)]
  simp only [decode, high, low, last, ofLittleEndian_littleEndian, UInt16.size]
  obtain ⟨block', offset'⟩ := place
  refine congr (congrArg ItemPointer.mk (UInt32.toNat_inj.mp ?_)) (UInt16.toNat_inj.mp ?_)
  · rw [UInt32.toNat_ofNat']
    simp only at block ⊢
    omega
  · rw [UInt16.toNat_ofNat']
    simp only at offset ⊢
    omega

theorem entryPos_fits {index : Nat} (h : index < entriesPerPage) :
    entryPos index + entrySize ≤ 32752 := by
  simp only [entryPos, headerSize, entrySize, entriesPerPage] at *
  omega

/-- The entry at an index; one outside the page counts as invalid. -/
def entryAt (page : Page) (index : Nat) : ItemPointer :=
  match entry page index with
  | .ok place => place
  | .error _ => .invalid

theorem entry_eq (page : Page) {index : Nat} (h : index < entriesPerPage) :
    entry page index = .ok (entryAt page index) := by
  have fits : entryPos index + entrySize ≤ pageSize := Nat.le_trans (entryPos_fits h) (by decide)
  simp only [entryAt, entry, Page.fetch, fits, dite_true, Functor.map, Except.map]

theorem entryAt_congr {page other : Page} {index : Nat} (h : index < entriesPerPage)
    (same : Page.SameOn 24 32752 page other) : entryAt page index = entryAt other index := by
  have fits := entryPos_fits h
  rw [entryAt, entryAt, entry, entry,
    same.fetch_eq (by simp only [entryPos, headerSize]; omega) fits]

/-- The page with an entry replaced. -/
def withEntry (page : Page) (index : Nat) (place : ItemPointer) : Page :=
  match setEntry page index place with
  | .ok page => page
  | .error _ => page

theorem setEntry_eq (page : Page) {index : Nat} (h : index < entriesPerPage) (place : ItemPointer) :
    setEntry page index place = .ok (withEntry page index place) := by
  have fits : entryPos index + (if place.isValid then place else .invalid).encode.length ≤ pageSize := by
    rw [ItemPointer.length_encode]
    exact Nat.le_trans (entryPos_fits h) (by decide)
  simp only [withEntry, setEntry, Page.store, fits, dite_true]

theorem setEntryFor_eq (page : Page) {addressing : Addressing} {heapBlock : BlockNumber} {index : Nat}
    (place : ItemPointer) (eq : addressing.entryIndex heapBlock = .ok index) (h : index < entriesPerPage) :
    setEntryFor page addressing heapBlock place = .ok (withEntry page index place) := by
  simp only [setEntryFor, eq, bind, Except.bind, setEntry_eq page h]

section WithEntry

variable (page : Page) {index : Nat} (h : index < entriesPerPage) (place : ItemPointer)
include h

theorem sameOn_withEntry {first last : Nat}
    (apart : last ≤ entryPos index ∨ entryPos index + entrySize ≤ first) :
    Page.SameOn first last (withEntry page index place) page := by
  have fits : entryPos index + (if place.isValid then place else .invalid).encode.length ≤ pageSize := by
    rw [ItemPointer.length_encode]
    exact Nat.le_trans (entryPos_fits h) (by decide)
  simp only [withEntry, setEntry, Page.store, fits, dite_true]
  exact Page.sameOn_patch _ _ _ _ (by rwa [ItemPointer.length_encode])

theorem withEntry_frame :
    Page.SameOn 0 24 (withEntry page index place) page ∧
      Page.SameOn 32752 pageSize (withEntry page index place) page :=
  ⟨sameOn_withEntry page h place (.inl (Nat.le_add_right _ _)),
    sameOn_withEntry page h place (.inr (entryPos_fits h))⟩

theorem entryAt_withEntry_same :
    entryAt (withEntry page index place) index = if place.isValid then place else .invalid := by
  have size := ItemPointer.length_encode (if place.isValid then place else .invalid)
  have fits : entryPos index + entrySize ≤ pageSize := Nat.le_trans (entryPos_fits h) (by decide)
  have fits' : entryPos index + (if place.isValid then place else .invalid).encode.length ≤ pageSize := by
    rw [size]
    exact fits
  have bytes := Page.slice_patch_same page (entryPos index)
    (if place.isValid then place else .invalid).encode fits'
  simp only [size] at bytes
  simp only [entryAt, entry, withEntry, setEntry, Page.store, fits', dite_true, Page.fetch, fits,
    Functor.map, Except.map, bytes, ItemPointer.decode_encode]

theorem entryAt_withEntry_other {other : Nat} (ne : other ≠ index) :
    entryAt (withEntry page index place) other = entryAt page other := by
  have apart : entryPos other + entrySize ≤ entryPos index ∨ entryPos index + entrySize ≤ entryPos other := by
    simp only [entryPos, headerSize, entrySize] at *
    omega
  rw [entryAt, entryAt, entry, entry,
    (sameOn_withEntry page h place apart).fetch_eq (Nat.le_refl _) (Nat.le_refl _)]

end WithEntry

theorem entryAt_freshPage {index : Nat} (h : index < entriesPerPage) :
    (entryAt (freshPage mapType) index).isValid = false := by
  have fits : entryPos index + entrySize ≤ pageSize := Nat.le_trans (entryPos_fits h) (by decide)
  have bound := entryPos_fits h
  have zeros : (freshPage mapType).slice (entryPos index) entrySize fits = List.replicate entrySize 0 :=
      Page.slice_eq_zeros fits fun i hi low high => by
    refine (freshPage_sameOn_zero mapType (.inr (Nat.le_refl 20)) (.inl (Nat.le_refl _)) i hi ?_ ?_).trans
      (Page.byte_zero i hi)
    · simp only [entryPos, headerSize] at low
      omega
    · simp only [entrySize] at *
      omega
  simp only [entryAt, entry, Page.fetch, fits, dite_true, Functor.map, Except.map, zeros]
  rfl

/-- What the special area of a range map page says. -/
theorem links_congr {page other : Page} (h : Page.SameOn 32752 pageSize page other) :
    pageType page = pageType other ∧ nextMapPage page = nextMapPage other ∧
      logicalPageOf page = logicalPageOf other ∧ pageFlags page = pageFlags other :=
  ⟨h.word16_eq (by decide) (by decide) _, h.word32_eq (by decide) (by decide) _,
    h.word32_eq (by decide) (by decide) _, h.word16_eq (by decide) (by decide) _⟩

theorem isNew_congr {page other : Page} (h : Page.SameOn 14 16 page other) : page.isNew = other.isNew := by
  rw [Page.isNew, Page.isNew, h.upper_eq (Nat.le_refl _) (Nat.le_refl _)]

end RangeIndex

end Warehouse
