import Warehouse.Proofs.RangeIndex.Changes

/-! # What changes do to the bindings

Every step keeps the index sound and the range map in place. A record that extends the range
map leaves all bindings alone; the other records change the binding of one range, which
`Record.rebinds` reads off the record. -/

namespace Warehouse.RangeIndex

/-- The bindings after a change of the binding of one range. -/
def Rebound (change : Option (BlockNumber × Option (List UInt8)))
    (before : BlockNumber → List UInt8 → Prop) (heapBlock : BlockNumber) (payload : List UInt8) : Prop :=
  match change with
  | none => before heapBlock payload
  | some (changed, new) => if heapBlock = changed then new = some payload else before heapBlock payload

/-- The image has a metapage with the contents. -/
def Image.Holds (image : Image) (contents : Metapage) : Prop :=
  ∃ page, image.page? metaBlock = some page ∧ Metapage.Holds page contents

theorem Image.Holds.unique {image : Image} {contents contents' : Metapage} (h : image.Holds contents)
    (h' : image.Holds contents') : contents = contents' := by
  obtain ⟨page, at', holds⟩ := h
  obtain ⟨page', at'', holds'⟩ := h'
  rw [at'] at at''
  obtain rfl := Option.some.inj at''
  exact holds.unique holds'

theorem Sound.holds {image : Image} {contents : Metapage} (sound : Sound image contents) :
    image.Holds contents :=
  sound.shape.metapage

/-! ## Entries and tuples of changed pages -/

section Pages

variable {image after : Image} {block : BlockNumber} {index : Nat} {place : ItemPointer} {page page' : Page}

theorem entryIn_regular (h : image.page? block = some page) (regular : Regular page) :
    entryIn image block index = none := by
  rw [entryIn_of_page h, if_neg]
  rintro ⟨map, -⟩
  exact absurd (regular.kind.symm.trans (isMap_iff.mp map)) (by decide)

theorem tupleAt_map (h : image.page? place.block = some page) (map : MapPage page) :
    tupleAt image place = none := by
  rw [tupleAt_of_page h, if_neg]
  intro regular
  exact absurd (map.kind.symm.trans (isRegular_iff.mp regular)) (by decide)

theorem entryIn_congr (h : after.page? block = image.page? block) :
    entryIn after block index = entryIn image block index := by
  rw [entryIn, entryIn, h]

theorem tupleAt_congr (h : after.page? place.block = image.page? place.block) :
    tupleAt after place = tupleAt image place := by
  rw [tupleAt, tupleAt, h]

theorem entryIn_zero (h : image.page? block = some .zero) : entryIn image block index = none := by
  rw [entryIn_of_page h, if_neg]
  rintro ⟨map, -⟩
  exact absurd (isMap_iff.mp map) (by simp [pageType, mapType])

theorem tupleAt_zero (h : image.page? place.block = some .zero) : tupleAt image place = none := by
  rw [tupleAt_of_page h, if_neg]
  intro regular
  exact absurd (isRegular_iff.mp regular) (by simp [pageType, regularType])

theorem entryIn_none (h : image.page? block = none) : entryIn image block index = none := by
  rw [entryIn, h]

theorem tupleAt_none (h : image.page? place.block = none) : tupleAt image place = none := by
  rw [tupleAt, h]

/-- Replacing an entry keeps a page of the range map one. -/
theorem map_withEntry (map : MapPage page) (bound : index < entriesPerPage) (place : ItemPointer) :
    MapPage (withEntry page index place) ∧ nextMapPage (withEntry page index place) = nextMapPage page ∧
      logicalPageOf (withEntry page index place) = logicalPageOf page := by
  obtain ⟨front, back⟩ := withEntry_frame page bound place
  obtain ⟨kind, next, number, -⟩ := links_congr back
  refine ⟨⟨kind.trans map.kind, ?_⟩, next, number⟩
  rw [isNew_congr (front.mono (by decide) (by decide)), map.ready]

end Pages

/-! ## Redirecting an entry -/

/-- One entry of the range map is replaced, and of the other pages only regular ones are. -/
structure Rewrites (scene : Scene) (record : Log.Record) (after : Image) (mapBlock : BlockNumber)
    (slot : Nat) (place : ItemPointer) : Prop where
  size_eq : after.size = scene.image.size
  bound : slot < entriesPerPage
  at_map : ∃ mapPage, scene.image.page? mapBlock = some mapPage ∧ MapPage mapPage ∧
    after.page? mapBlock = some (scene.stamp record (withEntry mapPage slot place))
  others : ∀ block, block ≠ mapBlock → after.page? block = scene.image.page? block ∨
    ∃ page page', scene.image.page? block = some page ∧ Regular page ∧ after.page? block = some page' ∧
      Regular page'

namespace Rewrites

variable {scene : Scene} {record : Log.Record} {after : Image} {contents : Metapage}
  {mapBlock block : BlockNumber} {slot index : Nat} {place other : ItemPointer}

theorem sameMap (h : Rewrites scene record after mapBlock slot place)
    (shape : Geometry scene.image contents) : SameMap scene.image after := by
  have not_meta : ∀ {block page}, scene.image.page? block = some page → pageType page ≠ metaType →
      block ≠ metaBlock := by
    rintro block page at' kind rfl
    exact kind (shape.metaType_of at').1
  refine shape.sameMap_of_recast h.size_eq fun block => ?_
  by_cases eq : block = mapBlock
  · subst eq
    obtain ⟨mapPage, at', map, at''⟩ := h.at_map
    obtain ⟨map', next, number⟩ := map_withEntry map h.bound place
    obtain ⟨map'', next', number', -⟩ := scene.map_stamp record map'
    exact .inr ⟨not_meta at' (by rw [map.kind]; decide), mapPage, _, at', at'',
      .map map map'' (next'.trans next) (number'.trans number)⟩
  · rcases h.others block eq with same | ⟨page, page', at', regular, at'', regular'⟩
    · exact .inl same
    · exact .inr ⟨not_meta at' (by rw [regular.kind]; decide), page, page', at', at'',
        .regular regular.not_map regular'⟩

theorem entryIn_eq (h : Rewrites scene record after mapBlock slot place) :
    entryIn after block index = if block = mapBlock ∧ index = slot then
      (if place.isValid then some place else none) else entryIn scene.image block index := by
  by_cases eq : block = mapBlock
  · subst eq
    obtain ⟨mapPage, at', map, at''⟩ := h.at_map
    obtain ⟨map', -, -⟩ := map_withEntry map h.bound place
    obtain ⟨map'', -, -, entries⟩ := scene.map_stamp record map'
    by_cases here : index = slot
    · subst here
      refine Eq.trans ?_ (if_pos ⟨rfl, rfl⟩).symm
      rw [entryIn_of_map at'' map'' h.bound, entries index h.bound, entryAt_withEntry_same mapPage h.bound]
      cases valid : place.isValid with
      | true => rw [if_pos rfl, if_pos valid, if_pos rfl]
      | false => rfl
    · refine Eq.trans ?_ (if_neg fun both => here both.2).symm
      by_cases bound : index < entriesPerPage
      · rw [entryIn_of_map at'' map'' bound, entries index bound,
          entryAt_withEntry_other mapPage h.bound place here, entryIn_of_map at' map bound]
      · rw [entryIn_of_page at'', entryIn_of_page at', if_neg, if_neg]
        · exact fun both => bound both.2.1
        · exact fun both => bound both.2.1
  · rw [if_neg (fun both => eq both.1)]
    rcases h.others block eq with same | ⟨page, page', at', regular, at'', regular'⟩
    · exact entryIn_congr same
    · rw [entryIn_regular at' regular, entryIn_regular at'' regular']

theorem tupleAt_map (h : Rewrites scene record after mapBlock slot place) (here : other.block = mapBlock) :
    tupleAt after other = none ∧ tupleAt scene.image other = none := by
  obtain ⟨mapPage, at', map, at''⟩ := h.at_map
  obtain ⟨map', -, -⟩ := map_withEntry map h.bound place
  obtain ⟨map'', -⟩ := scene.map_stamp record map'
  rw [← here] at at' at''
  exact ⟨RangeIndex.tupleAt_map at'' map'', RangeIndex.tupleAt_map at' map⟩

/-- The rewritten image redirects the entry, if its tuples are as they have to be. -/
theorem redirects (h : Rewrites scene record after mapBlock (contents.addressing.slot heapBlock) place)
    (shape : Geometry scene.image contents) (start : contents.addressing.IsStart heapBlock)
    (covered : Covers scene.image contents heapBlock mapBlock)
    (new : Option (ItemPointer × List UInt8 × List UInt8))
    (place_eq : (if place.isValid then some place else none) = new.map Prod.fst)
    (tuple_new : ∀ place bytes payload, new = some (place, bytes, payload) →
      tupleAt scene.image place = none ∧ tupleAt after place = some bytes ∧
      Summary.decode bytes = some ⟨heapBlock, payload⟩)
    (tuple_old : ∀ place,
      entryIn scene.image mapBlock (contents.addressing.slot heapBlock) = some place →
      tupleAt after place = none)
    (tuple_other : ∀ place,
      entryIn scene.image mapBlock (contents.addressing.slot heapBlock) ≠ some place →
      (∀ bytes payload, new ≠ some (place, bytes, payload)) → tupleAt after place = tupleAt scene.image place) :
    (scene.image.view contents).Redirects (after.view contents) heapBlock mapBlock new where
  addressing_eq := rfl
  start := start
  covered := covered
  covers_iff _ _ := (h.sameMap shape).covers
  entry_same := by
    rw [← place_eq]
    exact h.entryIn_eq.trans (if_pos ⟨rfl, rfl⟩)
  entry_other block index ne := h.entryIn_eq.trans (if_neg ne)
  tuple_new := tuple_new
  tuple_old place old := .inl (tuple_old place old)
  tuple_other := tuple_other

end Rewrites

/-! ## The effect of every kind of record -/

/-- What a change does: the index stays sound, the range map stays in place, and the
bindings change as the record says. -/
structure Effect (image : Image) (contents : Metapage) (after : Image) (contents' : Metapage)
    (record : Log.Record) : Prop where
  sound : Sound after contents'
  grows : Grows image contents after contents'
  binds : ∀ heapBlock payload, Binds after contents' heapBlock payload ↔
    Rebound record.rebinds (Binds image contents) heapBlock payload

theorem mapPage_of_covers {image : Image} {contents : Metapage} (shape : Geometry image contents)
    {heapBlock mapBlock : BlockNumber} {mapPage : Page} (covered : Covers image contents heapBlock mapBlock)
    (at_map : image.page? mapBlock = some mapPage) : MapPage mapPage := by
  obtain ⟨page, at', map⟩ := shape.covers_page covered
  rw [at_map] at at'
  obtain rfl := Option.some.inj at'
  exact map

/-- A regular page and a page of the range map are different pages. -/
theorem block_ne {image : Image} {block mapBlock : BlockNumber} {page mapPage : Page}
    (at_block : image.page? block = some page) (regular : Regular page)
    (at_map : image.page? mapBlock = some mapPage) (map : MapPage mapPage) : block ≠ mapBlock := by
  rintro rfl
  rw [at_block] at at_map
  obtain rfl := Option.some.inj at_map
  exact regular.not_map map

/-- The last page of a chain is neither the metapage nor a page of zeros. -/
theorem Geometry.tail_page {image : Image} {contents : Metapage} (shape : Geometry image contents)
    (chained : contents.appendOnly = true) {sequence : Nat} (bound : sequence < sequenceCount) {page : Page}
    (at_last : image.page? (contents.chain sequence).last = some page) :
    MapPage page ∧ (contents.chain sequence).last ≠ metaBlock := by
  have map : MapPage page := by
    rcases shape.chain_ends chained bound with ⟨empty, -⟩ | ⟨-, last, -⟩
    · rw [empty] at at_last
      exact absurd rfl (Image.ne_invalid shape.small at_last)
    · obtain ⟨page', at', map, -⟩ := Geometry.inChain_page last
      rw [at_last] at at'
      obtain rfl := Option.some.inj at'
      exact map
  refine ⟨map, fun eq => ?_⟩
  rw [eq] at at_last
  exact absurd ((shape.metaType_of at_last).1.symm.trans map.kind) (by decide)

/-- A chain that has a last page has it in the index. -/
theorem Geometry.exists_tail {image : Image} {contents : Metapage} (shape : Geometry image contents)
    (chained : contents.appendOnly = true) {sequence : Nat} (bound : sequence < sequenceCount)
    (valid : (contents.chain sequence).last ≠ invalidBlock) :
    ∃ page, image.page? (contents.chain sequence).last = some page := by
  rcases shape.chain_ends chained bound with ⟨empty, -⟩ | ⟨-, last, -⟩
  · rw [empty] at valid
    exact absurd rfl valid
  · obtain ⟨page, at_last, -⟩ := Geometry.inChain_page last
    exact ⟨page, at_last⟩

/-- A change concerns every page once. -/
theorem Change.nodup {mode : Mode} {scene : Scene} {contents contents' : Metapage} {record : Log.Record}
    {pages : List (BlockNumber × Page)} (sound : Sound scene.image contents)
    (change : Change mode scene contents record pages contents') : (pages.map Prod.fst).Nodup := by
  have shape := sound.shape
  cases change with
  | extendPlain plain next at_block free at_meta =>
      rename_i block page metapage
      have ne : metaBlock ≠ block := by
        rintro rfl
        simp [metaBlock] at next
      simp [ne]
  | extendChain chained bound beyond dense free at_meta tail =>
      rename_i sequence block number metapage linked
      have ne : metaBlock ≠ block := by
        rintro rfl
        rw [at_meta] at free
        obtain rfl := Option.some.inj free
        exact absurd (shape.metaType_of at_meta).1 (by simp [pageType, metaType])
      cases tail with
      | none => simp [ne]
      | some at_last =>
          obtain ⟨map, first⟩ := shape.tail_page chained bound at_last
          simp [ne, first.symm, (map.ne_of_zero at_last free).symm]
  | insert start decoded covered site added stored valid at_map unbound =>
      simp [block_ne site.at_block site.regular at_map (mapPage_of_covers shape covered at_map)]
  | update start decoded covered at_old regular removed deleted ne site added stored valid at_map bound
      valid_old =>
      have map := mapPage_of_covers shape covered at_map
      simp [ne, block_ne site.at_block site.regular at_map map, block_ne at_old regular at_map map]
  | desummarize start covered at_block regular removed deleted at_map bound valid =>
      have ne := block_ne at_block regular at_map (mapPage_of_covers shape covered at_map)
      simp [ne.symm]

section Effects

variable {mode : Mode} {scene : Scene} {contents contents' : Metapage} {record : Log.Record}
  {pages : List (BlockNumber × Page)}

/-- Redirecting an entry has the effect that its record says. -/
theorem Rewrites.effect {after : Image} {mapBlock heapBlock : BlockNumber} {place : ItemPointer}
    {new : Option (ItemPointer × List UInt8 × List UInt8)}
    (h : Rewrites scene record after mapBlock (contents.addressing.slot heapBlock) place)
    (sound : Sound scene.image contents)
    (redirects : (scene.image.view contents).Redirects (after.view contents) heapBlock mapBlock new)
    (rebinds : record.rebinds = some (heapBlock, new.map fun entry => entry.2.2)) :
    Effect scene.image contents after contents record where
  sound := ⟨(h.sameMap sound.shape).geometry sound.shape,
    redirects.linked sound.linked sound.shape.functional⟩
  grows := .of_sameMap (h.sameMap sound.shape) (Nat.le_of_eq h.size_eq.symm)
  binds other payload := by
    refine (redirects.binds sound.linked sound.shape.functional).trans ?_
    rw [rebinds]
    simp only [Rebound]
    split
    · rw [Option.map_eq_some_iff]
      constructor
      · rintro ⟨place, bytes, eq⟩
        exact ⟨_, eq, rfl⟩
      · rintro ⟨⟨place, bytes, payload'⟩, eq, rfl⟩
        exact ⟨place, bytes, eq⟩
    · rfl

/-- Extending the range map leaves all bindings alone. -/
theorem effect_of_extends {after : Image} (sound : Sound scene.image contents)
    (shape : Geometry after contents') (grows : Grows scene.image contents after contents')
    (entries : ∀ block index, entryIn after block index = entryIn scene.image block index)
    (tuples : ∀ place, tupleAt after place = tupleAt scene.image place) (rebinds : record.rebinds = none) :
    Effect scene.image contents after contents' record := by
  have extend : (scene.image.view contents).Extends (after.view contents') :=
    ⟨grows.addressing_eq, fun _ _ => grows.covers, entries, tuples⟩
  refine ⟨⟨shape, extend.linked sound.linked⟩, grows, fun heapBlock payload => ?_⟩
  rw [rebinds]
  exact extend.binds sound.linked

theorem entryIn_invalid {image : Image} {mapBlock : BlockNumber} {mapPage : Page} {slot : Nat}
    (at_map : image.page? mapBlock = some mapPage) (map : MapPage mapPage) (bound : slot < entriesPerPage)
    (invalid : (entryAt mapPage slot).isValid = false) : entryIn image mapBlock slot = none := by
  rw [entryIn_of_map at_map map bound, invalid]
  rfl

theorem entryIn_valid {image : Image} {mapBlock : BlockNumber} {mapPage : Page} {slot : Nat}
    {place : ItemPointer} (at_map : image.page? mapBlock = some mapPage) (map : MapPage mapPage)
    (bound : slot < entriesPerPage) (eq : entryAt mapPage slot = place) (valid : place.isValid = true) :
    entryIn image mapBlock slot = some place := by
  rw [entryIn_of_map at_map map bound, eq, if_pos valid]

/-- The tuples of a page that got an item. -/
theorem tupleAt_stored {after : Image} {block : BlockNumber} {offset : OffsetNumber} {tuple : List UInt8}
    {page page' : Page} (at_block : scene.image.page? block = some page) (regular : Regular page)
    (stored : page.Stored offset.toNat tuple page')
    (at_after : after.page? block = some (scene.stamp record page')) {place : ItemPointer}
    (here : place.block = block) : tupleAt after place =
      if place = ⟨block, offset⟩ then some tuple else tupleAt scene.image place := by
  obtain ⟨regular', items, -⟩ := scene.regular_stamp record
    (regular.of_frame stored.packed stored.frame)
  subst here
  rw [tupleAt_of_regular at_after regular', tupleAt_of_regular at_block regular, items]
  by_cases eq : place.offset = offset
  · subst eq
    rw [if_pos rfl, stored.itemAt_same]
  · have ne : place.offset.toNat ≠ offset.toNat := fun h => eq (UInt16.toNat_inj.mp h)
    rw [if_neg (fun h => eq (congrArg ItemPointer.offset h)), stored.itemAt_other _ ne]

/-- The tuples of a page that lost an item. -/
theorem tupleAt_deleted {after : Image} {block : BlockNumber} {offset : OffsetNumber}
    {page page' : Page} (at_block : scene.image.page? block = some page) (regular : Regular page)
    (deleted : page.Deleted offset.toNat page')
    (at_after : after.page? block = some (scene.stamp record page')) {place : ItemPointer}
    (here : place.block = block) : tupleAt after place =
      if place = ⟨block, offset⟩ then none else tupleAt scene.image place := by
  obtain ⟨regular', items, -⟩ := scene.regular_stamp record
    (regular.of_frame deleted.packed deleted.frame)
  subst here
  rw [tupleAt_of_regular at_after regular', tupleAt_of_regular at_block regular, items]
  by_cases eq : place.offset = offset
  · subst eq
    rw [if_pos rfl, deleted.itemAt_same]
  · have ne : place.offset.toNat ≠ offset.toNat := fun h => eq (UInt16.toNat_inj.mp h)
    rw [if_neg (fun h => eq (congrArg ItemPointer.offset h)), deleted.itemAt_other _ ne]

theorem effect_insert {heapBlock mapBlock block : BlockNumber} {offset : OffsetNumber}
    {tuple payload : List UInt8} {fresh : Bool} {page page' mapPage : Page}
    (sound : Sound scene.image contents)
    (start : contents.addressing.IsStart heapBlock)
    (decoded : Summary.decode tuple = some ⟨heapBlock, payload⟩)
    (covered : Covers scene.image contents heapBlock mapBlock)
    (site : Site mode scene block page fresh)
    (stored : page.Stored offset.toNat tuple page')
    (valid : (ItemPointer.mk block offset).isValid = true)
    (at_map : scene.image.page? mapBlock = some mapPage)
    (unbound : (entryAt mapPage (contents.addressing.slot heapBlock)).isValid = false)
    (record_eq : record =
      .insert heapBlock contents.pagesPerRange contents.appendOnly mapBlock block offset tuple fresh)
    (nodup : (pages.map Prod.fst).Nodup)
    (pages_eq : pages = [(block, page'),
      (mapBlock, withEntry mapPage (contents.addressing.slot heapBlock) ⟨block, offset⟩)]) :
    Effect scene.image contents (scene.commit record pages).image contents record := by
  have bound := contents.addressing.slot_lt heapBlock
  have map := mapPage_of_covers sound.shape covered at_map
  have at_after := Scene.page?_commit_mem record (page') nodup (by simp [pages_eq]) site.at_block
  have at_map' := Scene.page?_commit_mem record (withEntry mapPage (contents.addressing.slot heapBlock) ⟨block, offset⟩)
    nodup (by simp [pages_eq]) at_map
  have others : ∀ other, other ≠ block → other ≠ mapBlock →
      (scene.commit record pages).image.page? other = scene.image.page? other := fun other h h' =>
    Scene.page?_commit_other (by simp [pages_eq, h, h'])
  have rewrites : Rewrites scene record (scene.commit record pages).image mapBlock
      (contents.addressing.slot heapBlock) ⟨block, offset⟩ := by
    refine ⟨Scene.size_commit, bound, ⟨mapPage, at_map, map, at_map'⟩, fun other h => ?_⟩
    by_cases eq : other = block
    · subst eq
      exact .inr ⟨page, _, site.at_block, site.regular, at_after,
        (scene.regular_stamp record (site.regular.of_frame stored.packed stored.frame)).1⟩
    · exact .inl (others other eq h)
  have tuples : ∀ place, tupleAt (scene.commit record pages).image place =
      if place = ⟨block, offset⟩ then some tuple else tupleAt scene.image place := by
    intro place
    by_cases here : place.block = block
    · exact tupleAt_stored site.at_block site.regular stored at_after here
    · have apart : place ≠ ⟨block, offset⟩ := fun h => here (congrArg ItemPointer.block h)
      rw [if_neg apart]
      by_cases mapped : place.block = mapBlock
      · obtain ⟨left, right⟩ := rewrites.tupleAt_map mapped
        rw [left, right]
      · exact tupleAt_congr (others _ here mapped)
  have none := entryIn_invalid at_map map bound unbound
  have redirects := rewrites.redirects sound.shape start covered
    (some (⟨block, offset⟩, tuple, payload)) (by rw [if_pos valid]; rfl) ?_ ?_ ?_
  · refine rewrites.effect sound redirects ?_
    simp only [record_eq, Log.Record.rebinds, decoded, Option.map_some]
  · rintro place bytes payload' eq
    obtain ⟨rfl, rfl, rfl⟩ := Prod.mk.inj (Option.some.inj eq) |>.imp_right Prod.mk.inj
    refine ⟨?_, by rw [tuples, if_pos rfl], decoded⟩
    rw [tupleAt_of_regular site.at_block site.regular]
    exact stored.free
  · intro place old
    rw [none] at old
    cases old
  · intro place _ fresh
    rw [tuples, if_neg]
    rintro rfl
    exact fresh tuple payload rfl

theorem effect_update {heapBlock mapBlock : BlockNumber} {old new : ItemPointer}
    {tuple payload : List UInt8} {fresh : Bool} {oldPage oldPage' page page' mapPage : Page}
    (sound : Sound scene.image contents)
    (start : contents.addressing.IsStart heapBlock)
    (decoded : Summary.decode tuple = some ⟨heapBlock, payload⟩)
    (covered : Covers scene.image contents heapBlock mapBlock)
    (at_old : scene.image.page? old.block = some oldPage)
    (regular : Regular oldPage)
    (deleted : oldPage.Deleted old.offset.toNat oldPage')
    (ne : old.block ≠ new.block)
    (site : Site mode scene new.block page fresh)
    (stored : page.Stored new.offset.toNat tuple page')
    (valid : new.isValid = true)
    (at_map : scene.image.page? mapBlock = some mapPage)
    (bound_eq : entryAt mapPage (contents.addressing.slot heapBlock) = old)
    (valid_old : old.isValid = true)
    (record_eq : record = .update heapBlock contents.pagesPerRange contents.appendOnly mapBlock old.block
      old.offset new.block new.offset tuple fresh)
    (nodup : (pages.map Prod.fst).Nodup)
    (pages_eq : pages = [(old.block, oldPage'), (new.block, page'),
      (mapBlock, withEntry mapPage (contents.addressing.slot heapBlock) new)]) :
    Effect scene.image contents (scene.commit record pages).image contents record := by
  have bound := contents.addressing.slot_lt heapBlock
  have map := mapPage_of_covers sound.shape covered at_map
  have new_ne := block_ne site.at_block site.regular at_map map
  have old_ne := block_ne at_old regular at_map map
  have at_after := Scene.page?_commit_mem record (page') nodup (by simp [pages_eq]) site.at_block
  have at_old' := Scene.page?_commit_mem record (oldPage') nodup (by simp [pages_eq]) at_old
  have at_map' := Scene.page?_commit_mem record (withEntry mapPage (contents.addressing.slot heapBlock) new)
    nodup (by simp [pages_eq]) at_map
  have others : ∀ other, other ≠ old.block → other ≠ new.block → other ≠ mapBlock →
      (scene.commit record pages).image.page? other = scene.image.page? other := fun other h h' h'' =>
    Scene.page?_commit_other (by simp [pages_eq, h, h', h''])
  have rewrites : Rewrites scene record (scene.commit record pages).image mapBlock
      (contents.addressing.slot heapBlock) new := by
    refine ⟨Scene.size_commit, bound, ⟨mapPage, at_map, map, at_map'⟩, fun other h => ?_⟩
    by_cases eq : other = new.block
    · subst eq
      exact .inr ⟨page, _, site.at_block, site.regular, at_after,
        (scene.regular_stamp record (site.regular.of_frame stored.packed stored.frame)).1⟩
    · by_cases eq' : other = old.block
      · subst eq'
        exact .inr ⟨oldPage, _, at_old, regular, at_old',
          (scene.regular_stamp record (regular.of_frame deleted.packed deleted.frame)).1⟩
      · exact .inl (others other eq' eq h)
  have apart : old ≠ new := fun h => ne (congrArg ItemPointer.block h)
  have tuples : ∀ place, tupleAt (scene.commit record pages).image place =
      if place = new then some tuple else if place = old then none else tupleAt scene.image place := by
    intro place
    by_cases here : place.block = new.block
    · have not_old : place ≠ old := by
        rintro rfl
        exact ne here
      rw [if_neg not_old]
      exact tupleAt_stored site.at_block site.regular stored at_after here
    · rw [if_neg (fun h => here (congrArg ItemPointer.block h))]
      by_cases here' : place.block = old.block
      · exact tupleAt_deleted at_old regular deleted at_old' here'
      · rw [if_neg (fun h => here' (congrArg ItemPointer.block h))]
        by_cases mapped : place.block = mapBlock
        · obtain ⟨left, right⟩ := rewrites.tupleAt_map mapped
          rw [left, right]
        · exact tupleAt_congr (others _ here' here mapped)
  have some_old := entryIn_valid at_map map bound bound_eq valid_old
  have redirects := rewrites.redirects sound.shape start covered
    (some (new, tuple, payload)) (by rw [if_pos valid]; rfl) ?_ ?_ ?_
  · refine rewrites.effect sound redirects ?_
    simp only [record_eq, Log.Record.rebinds, decoded, Option.map_some]
  · rintro place bytes payload' eq
    obtain ⟨rfl, rfl, rfl⟩ := Prod.mk.inj (Option.some.inj eq) |>.imp_right Prod.mk.inj
    refine ⟨?_, by rw [tuples, if_pos rfl], decoded⟩
    rw [tupleAt_of_regular site.at_block site.regular]
    exact stored.free
  · intro place old'
    rw [some_old] at old'
    obtain rfl := Option.some.inj old'
    rw [tuples, if_neg apart, if_pos rfl]
  · intro place old' fresh
    rw [some_old] at old'
    rw [tuples, if_neg, if_neg]
    · rintro rfl
      exact old' rfl
    · rintro rfl
      exact fresh tuple payload rfl

theorem effect_desummarize {heapBlock mapBlock : BlockNumber} {place : ItemPointer}
    {page page' mapPage : Page}
    (sound : Sound scene.image contents)
    (start : contents.addressing.IsStart heapBlock)
    (covered : Covers scene.image contents heapBlock mapBlock)
    (at_block : scene.image.page? place.block = some page)
    (regular : Regular page)
    (deleted : page.Deleted place.offset.toNat page')
    (at_map : scene.image.page? mapBlock = some mapPage)
    (bound_eq : entryAt mapPage (contents.addressing.slot heapBlock) = place)
    (valid : place.isValid = true)
    (record_eq : record = .desummarize contents.pagesPerRange contents.appendOnly heapBlock mapBlock
      place.block place.offset)
    (nodup : (pages.map Prod.fst).Nodup)
    (pages_eq : pages = [(mapBlock, withEntry mapPage (contents.addressing.slot heapBlock) .invalid),
      (place.block, page')]) :
    Effect scene.image contents (scene.commit record pages).image contents record := by
  have bound := contents.addressing.slot_lt heapBlock
  have map := mapPage_of_covers sound.shape covered at_map
  have at_after := Scene.page?_commit_mem record (page') nodup (by simp [pages_eq]) at_block
  have at_map' := Scene.page?_commit_mem record (withEntry mapPage (contents.addressing.slot heapBlock) .invalid)
    nodup (by simp [pages_eq]) at_map
  have others : ∀ other, other ≠ place.block → other ≠ mapBlock →
      (scene.commit record pages).image.page? other = scene.image.page? other := fun other h h' =>
    Scene.page?_commit_other (by simp [pages_eq, h, h'])
  have rewrites : Rewrites scene record (scene.commit record pages).image mapBlock
      (contents.addressing.slot heapBlock) .invalid := by
    refine ⟨Scene.size_commit, bound, ⟨mapPage, at_map, map, at_map'⟩, fun other h => ?_⟩
    by_cases eq : other = place.block
    · subst eq
      exact .inr ⟨page, _, at_block, regular, at_after,
        (scene.regular_stamp record (regular.of_frame deleted.packed deleted.frame)).1⟩
    · exact .inl (others other eq h)
  have tuples : ∀ other, tupleAt (scene.commit record pages).image other =
      if other = place then none else tupleAt scene.image other := by
    intro other
    by_cases here : other.block = place.block
    · exact tupleAt_deleted at_block regular deleted at_after here
    · rw [if_neg (fun h => here (congrArg ItemPointer.block h))]
      by_cases mapped : other.block = mapBlock
      · obtain ⟨left, right⟩ := rewrites.tupleAt_map mapped
        rw [left, right]
      · exact tupleAt_congr (others _ here mapped)
  have some_old := entryIn_valid at_map map bound bound_eq valid
  have redirects := rewrites.redirects sound.shape start covered none rfl ?_ ?_ ?_
  · exact rewrites.effect sound redirects (by rw [record_eq]; rfl)
  · rintro place bytes payload' eq
    cases eq
  · intro other old
    rw [some_old] at old
    obtain rfl := Option.some.inj old
    rw [tuples, if_pos rfl]
  · intro other old _
    rw [some_old] at old
    rw [tuples, if_neg]
    rintro rfl
    exact old rfl

/-! ### Records that extend the range map -/

theorem entryIn_meta {image : Image} {block : BlockNumber} {index : Nat} {page : Page}
    (h : image.page? block = some page) (kind : pageType page = metaType) :
    entryIn image block index = none := by
  rw [entryIn_of_page h, if_neg]
  rintro ⟨map, -⟩
  exact absurd (kind.symm.trans (isMap_iff.mp map)) (by decide)

theorem tupleAt_meta {image : Image} {place : ItemPointer} {page : Page}
    (h : image.page? place.block = some page) (kind : pageType page = metaType) :
    tupleAt image place = none := by
  rw [tupleAt_of_page h, if_neg]
  intro regular
  exact absurd (kind.symm.trans (isRegular_iff.mp regular)) (by decide)

/-- A range map page whose entries are all invalid. -/
theorem entryIn_blank {image : Image} {block : BlockNumber} {index : Nat} {page : Page}
    (h : image.page? block = some page) (map : MapPage page)
    (blank : ∀ index, index < entriesPerPage → (entryAt page index).isValid = false) :
    entryIn image block index = none := by
  by_cases bound : index < entriesPerPage
  · exact entryIn_invalid h map bound (blank index bound)
  · rw [entryIn_of_page h, if_neg]
    exact fun both => bound both.2.1

/-- Linking a page of the range map to another one changes its link and nothing else. -/
theorem map_setNextMapPage {page : Page} (map : MapPage page) (block : BlockNumber) :
    MapPage (setNextMapPage page block) ∧ nextMapPage (setNextMapPage page block) = block ∧
      logicalPageOf (setNextMapPage page block) = logicalPageOf page ∧
      ∀ index, index < entriesPerPage → entryAt (setNextMapPage page block) index = entryAt page index := by
  have same : ∀ {first last}, last ≤ 32756 ∨ 32760 ≤ first →
      Page.SameOn first last (setNextMapPage page block) page := fun apart =>
    Page.sameOn_setWord32 _ _ _ _ apart
  refine ⟨⟨?_, ?_⟩, Page.word32_setWord32_same _ _ _ _ _, ?_, fun index bound => ?_⟩
  · have back : Page.SameOn 32760 pageSize (setNextMapPage page block) page := same (.inr (Nat.le_refl _))
    exact (back.word16_eq (by decide) (by decide) _).trans map.kind
  · rw [isNew_congr (same (.inl (by decide))), map.ready]
  · exact (same (.inl (Nat.le_refl _))).word32_eq (Nat.le_refl 32752) (by decide) _
  · exact entryAt_congr bound (same (.inl (by decide)))

/-- A fresh page of a chain. -/
theorem map_setLogicalPage (number : UInt32) :
    MapPage (setLogicalPage (freshPage mapType) number) ∧
      nextMapPage (setLogicalPage (freshPage mapType) number) = invalidBlock ∧
      logicalPageOf (setLogicalPage (freshPage mapType) number) = number ∧
      ∀ index, index < entriesPerPage →
        (entryAt (setLogicalPage (freshPage mapType) number) index).isValid = false := by
  have same : ∀ {first last}, last ≤ 32752 ∨ 32756 ≤ first →
      Page.SameOn first last (setLogicalPage (freshPage mapType) number) (freshPage mapType) :=
    fun apart => Page.sameOn_setWord32 _ _ _ _ apart
  have back : Page.SameOn 32756 pageSize (setLogicalPage (freshPage mapType) number) (freshPage mapType) :=
    same (.inr (Nat.le_refl _))
  refine ⟨⟨?_, ?_⟩, ?_, Page.word32_setWord32_same _ _ _ _ _, fun index bound => ?_⟩
  · exact (back.word16_eq (by decide) (by decide) _).trans (pageType_freshPage _)
  · rw [isNew_congr (same (.inl (by decide))), isNew_freshPage]
  · exact (back.word32_eq (Nat.le_refl 32756) (by decide) _).trans nextMapPage_freshPage
  · rw [entryAt_congr bound (same (.inl (Nat.le_refl _)))]
    exact entryAt_freshPage bound

theorem holds_stamp_write (scene : Scene) (record : Log.Record) (contents' : Metapage) {metapage : Page}
    (kind : pageType metapage = metaType) (magic : contents'.magic = metaMagic) :
    Metapage.Holds (scene.stamp record (contents'.write metapage)) contents' :=
  (Metapage.holds_write contents' metapage kind magic).congr
    ((scene.sameOn_stamp record _).mono (by decide) (Nat.le_refl _))

theorem effect_extendPlain {block : BlockNumber} {page metapage : Page}
    (sound : Sound scene.image contents)
    (plain : contents.appendOnly = false)
    (next : block.toNat = contents.lastMapPage.toNat + 1)
    (at_block : scene.image.page? block = some page)
    (free : page = .zero ∨ Regular page ∧ ∀ offset, page.itemAt offset = none)
    (at_meta : scene.image.page? metaBlock = some metapage)
    (contents_eq : contents' = { contents with lastMapPage := block })
    (record_eq : record = .extendMap block false 0 0 invalidBlock)
    (nodup : (pages.map Prod.fst).Nodup)
    (pages_eq : pages = [(metaBlock, contents'.write metapage), (block, freshPage mapType)]) :
    Effect scene.image contents (scene.commit record pages).image contents' record := by
  have at_meta' := Scene.page?_commit_mem record (contents'.write metapage) nodup (by simp [pages_eq]) at_meta
  have at_block' := Scene.page?_commit_mem record (freshPage mapType) nodup (by simp [pages_eq]) at_block
  have others : ∀ other, other ≠ metaBlock → other ≠ block →
      (scene.commit record pages).image.page? other = scene.image.page? other := fun other h h' =>
    Scene.page?_commit_other (by simp [pages_eq, h, h'])
  have kind := (sound.shape.metaType_of at_meta).1
  have holds := holds_stamp_write scene record contents' kind
    (by rw [contents_eq]; exact sound.shape.magic)
  have kind' := (Metapage.holds_iff.mp holds).1
  obtain ⟨map, -, -, entries⟩ := scene.map_stamp record mapPage_freshPage
  have growth : PlainGrowth scene.image (scene.commit record pages).image contents block
      (scene.stamp record (contents'.write metapage)) (scene.stamp record (freshPage mapType)) :=
    ⟨plain, next, Scene.size_commit, at_meta', contents_eq ▸ holds, at_block', map, others⟩
  have shape := growth.geometry sound.shape
  have grows := growth.grows sound.shape
  rw [← contents_eq] at shape grows
  refine effect_of_extends sound shape grows (fun other index => ?_) (fun place => ?_) (by rw [record_eq]; rfl)
  · by_cases first : other = metaBlock
    · subst first
      rw [entryIn_meta at_meta kind, entryIn_meta at_meta' kind']
    · by_cases eq : other = block
      · subst eq
        rw [entryIn_blank at_block' map fun index bound => by rw [entries index bound, entryAt_freshPage bound]]
        rcases free with rfl | ⟨regular, -⟩
        · rw [entryIn_zero at_block]
        · rw [entryIn_regular at_block regular]
      · exact entryIn_congr (others other first eq)
  · by_cases first : place.block = metaBlock
    · rw [← first] at at_meta at_meta'
      rw [tupleAt_meta at_meta kind, tupleAt_meta at_meta' kind']
    · by_cases eq : place.block = block
      · subst eq
        rw [tupleAt_map at_block' map]
        rcases free with rfl | ⟨regular, empty⟩
        · rw [tupleAt_zero at_block]
        · rw [tupleAt_of_regular at_block regular, empty]
      · exact tupleAt_congr (others place.block first eq)

theorem effect_extendChain {sequence : Nat} {block : BlockNumber} {number : UInt32} {metapage : Page}
    {linked : List (BlockNumber × Page)}
    (sound : Sound scene.image contents)
    (chained : contents.appendOnly = true)
    (bound : sequence < sequenceCount)
    (beyond : (contents.chain sequence).lastLogical < number)
    (free : scene.image.page? block = some .zero)
    (at_meta : scene.image.page? metaBlock = some metapage)
    (tail : LinkedTail scene.image (contents.chain sequence).last block linked)
    (contents_eq : contents' = contents.withGrown sequence block number)
    (record_eq : record =
      .extendMap block true (UInt32.ofNat sequence) number (contents.chain sequence).last)
    (nodup : (pages.map Prod.fst).Nodup)
    (pages_eq : pages = [(metaBlock, contents'.write metapage),
      (block, setLogicalPage (freshPage mapType) number)] ++ linked) :
    Effect scene.image contents (scene.commit record pages).image contents' record ∧
      ∃ metapage' mapPage, ChainGrowth scene.image (scene.commit record pages).image contents contents'
        sequence block number metapage' mapPage := by
  have kind := (sound.shape.metaType_of at_meta).1
  have tail_map : ∀ page, scene.image.page? (contents.chain sequence).last = some page → MapPage page :=
    fun page at_last => (sound.shape.tail_page chained bound at_last).1
  have at_meta' := Scene.page?_commit_mem record (contents'.write metapage) nodup (by simp [pages_eq]) at_meta
  have at_block' := Scene.page?_commit_mem record (setLogicalPage (freshPage mapType) number)
    nodup (by simp [pages_eq]) free
  have others : ∀ other, other ≠ metaBlock → other ≠ block → other ≠ (contents.chain sequence).last →
      (scene.commit record pages).image.page? other = scene.image.page? other := by
    intro other h h' h''
    refine Scene.page?_commit_other ?_
    cases tail <;> simp [pages_eq, h, h', h'']
  have at_tail : ∀ page, scene.image.page? (contents.chain sequence).last = some page →
      (scene.commit record pages).image.page? (contents.chain sequence).last =
        some (scene.stamp record (setNextMapPage page block)) := by
    intro page at'
    cases tail with
    | none empty =>
        rw [empty] at at'
        exact absurd rfl (Image.ne_invalid sound.shape.small at')
    | some at_last =>
        rw [at'] at at_last
        obtain rfl := Option.some.inj at_last
        exact Scene.page?_commit_mem record _ nodup (by simp [pages_eq]) at'
  have holds := holds_stamp_write scene record contents' kind
    (by rw [contents_eq]; exact sound.shape.magic)
  have kind' := (Metapage.holds_iff.mp holds).1
  obtain ⟨map, next, number_eq, blank⟩ := map_setLogicalPage number
  obtain ⟨map', next', number_eq', entries⟩ := scene.map_stamp record map
  have growth : ChainGrowth scene.image (scene.commit record pages).image contents contents' sequence block
      number (scene.stamp record (contents'.write metapage))
      (scene.stamp record (setLogicalPage (freshPage mapType) number)) := by
    refine ⟨chained, bound, contents_eq, beyond, free, Scene.size_commit, at_meta', holds, at_block', map',
      next'.trans next, number_eq'.trans number_eq, fun page at' => ?_, others⟩
    obtain ⟨linked, next, number, -⟩ := map_setNextMapPage (tail_map page at') block
    obtain ⟨linked', next', number', -⟩ := scene.map_stamp record linked
    exact ⟨_, at_tail page at', linked', next'.trans next, number'.trans number⟩
  refine ⟨effect_of_extends sound (growth.geometry sound.shape) (growth.grows sound.shape)
    (fun other index => ?_) (fun place => ?_) (by rw [record_eq]; rfl), _, _, growth⟩
  · by_cases first : other = metaBlock
    · subst first
      rw [entryIn_meta at_meta kind, entryIn_meta at_meta' kind']
    · by_cases eq : other = block
      · subst eq
        rw [entryIn_zero free, entryIn_blank at_block' map' fun index bound => by
          rw [entries index bound, blank index bound]]
      · by_cases last : other = (contents.chain sequence).last
        · subst last
          cases page_eq : scene.image.page? (contents.chain sequence).last with
          | none =>
              have := Image.page?_eq_none.mp page_eq
              rw [entryIn_none page_eq, entryIn_none]
              rw [Image.page?_eq_none, Scene.size_commit]
              exact this
          | some page =>
              obtain ⟨linked, -, -, same⟩ := map_setNextMapPage (tail_map page page_eq) block
              obtain ⟨linked', -, -, same'⟩ := scene.map_stamp record linked
              by_cases inside : index < entriesPerPage
              · rw [entryIn_of_map (at_tail page page_eq) linked' inside,
                  entryIn_of_map page_eq (tail_map page page_eq) inside, same' index inside, same index inside]
              · rw [entryIn_of_page (at_tail page page_eq), entryIn_of_page page_eq, if_neg, if_neg]
                · exact fun both => inside both.2.1
                · exact fun both => inside both.2.1
        · exact entryIn_congr (others other first eq last)
  · by_cases first : place.block = metaBlock
    · rw [← first] at at_meta at_meta'
      rw [tupleAt_meta at_meta kind, tupleAt_meta at_meta' kind']
    · by_cases eq : place.block = block
      · subst eq
        rw [tupleAt_map at_block' map', tupleAt_zero free]
      · by_cases last : place.block = (contents.chain sequence).last
        · cases page_eq : scene.image.page? place.block with
          | none =>
              have := Image.page?_eq_none.mp page_eq
              rw [tupleAt_none page_eq, tupleAt_none]
              rw [Image.page?_eq_none, Scene.size_commit]
              exact this
          | some page =>
              have at' := page_eq
              rw [last] at at'
              obtain ⟨linked, -⟩ := map_setNextMapPage (tail_map page at') block
              obtain ⟨linked', -⟩ := scene.map_stamp record linked
              have after := at_tail page at'
              rw [← last] at after
              rw [tupleAt_map after linked', tupleAt_map page_eq (tail_map page at')]
        · exact tupleAt_congr (others place.block first eq last)

end Effects

/-- Every committed change has the effect that its record says. -/
theorem Change.effect {mode : Mode} {scene : Scene} {contents contents' : Metapage} {record : Log.Record}
    {pages : List (BlockNumber × Page)} (sound : Sound scene.image contents)
    (change : Change mode scene contents record pages contents') :
    Effect scene.image contents (scene.commit record pages).image contents' record := by
  have nodup := change.nodup sound
  cases change with
  | extendPlain plain next at_block free at_meta =>
      exact effect_extendPlain sound plain next at_block free at_meta rfl rfl nodup rfl
  | extendChain chained bound beyond dense free at_meta tail =>
      exact (effect_extendChain sound chained bound beyond free at_meta tail rfl rfl nodup rfl).1
  | insert start decoded covered site added stored valid at_map unbound =>
      exact effect_insert sound start decoded covered site stored valid at_map unbound rfl nodup rfl
  | update start decoded covered at_old regular removed deleted ne site added stored valid at_map bound
      valid_old =>
      exact effect_update sound start decoded covered at_old regular deleted ne site stored valid at_map
        bound valid_old rfl nodup rfl
  | desummarize start covered at_block regular removed deleted at_map bound valid =>
      exact effect_desummarize sound start covered at_block regular deleted at_map bound valid rfl nodup rfl

/-! ## Steps that log nothing -/

section Quiet

variable {image after : Image} {contents : Metapage}

/-- Steps that log nothing change neither the range map nor entries nor tuples. -/
structure Quiet (image after : Image) : Prop where
  map : SameMap image after
  size_le : image.size ≤ after.size
  entries : ∀ block index, entryIn after block index = entryIn image block index
  tuples : ∀ place, tupleAt after place = tupleAt image place

theorem Geometry.quiet_refl (shape : Geometry image contents) :
    Quiet image image where
  map := ⟨shape.small, fun _ at_meta => at_meta, shape.kinds,
    fun _ page at_block map => ⟨page, at_block, map, rfl, rfl⟩, fun _ page at_block map => ⟨page, at_block, map⟩⟩
  size_le := Nat.le_refl _
  entries _ _ := rfl
  tuples _ := rfl

theorem Quiet.trans {middle : Image} (quiet : Quiet image middle) (quiet' : Quiet middle after) :
    Quiet image after where
  map := quiet.map.trans quiet'.map
  size_le := Nat.le_trans quiet.size_le quiet'.size_le
  entries block index := (quiet'.entries block index).trans (quiet.entries block index)
  tuples place := (quiet'.tuples place).trans (quiet.tuples place)

theorem Quiet.extends (quiet : Quiet image after) : (image.view contents).Extends (after.view contents) :=
  ⟨rfl, fun _ _ covered => quiet.map.covers.mpr covered, quiet.entries, quiet.tuples⟩

theorem Quiet.sound (quiet : Quiet image after) (sound : Sound image contents) : Sound after contents :=
  ⟨quiet.map.geometry sound.shape, quiet.extends.linked sound.linked⟩

theorem Quiet.binds (quiet : Quiet image after) (sound : Sound image contents) {heapBlock : BlockNumber}
    {payload : List UInt8} : Binds after contents heapBlock payload ↔ Binds image contents heapBlock payload :=
  quiet.extends.binds sound.linked

theorem Geometry.quiet_grow (shape : Geometry image contents) (room : image.size + 1 < 2 ^ 32) :
    Quiet image (image.push .zero) := by
  refine ⟨shape.sameMap_push room, by rw [Array.size_push]; omega, fun block index => ?_, fun place => ?_⟩
  · by_cases inside : block.toNat < image.size
    · exact entryIn_congr (Image.page?_push_old inside)
    · have gone : image.page? block = none := Image.page?_eq_none.mpr (by omega)
      rw [entryIn_none gone]
      by_cases new : block.toNat = image.size
      · exact entryIn_zero (Image.page?_push_new new)
      · exact entryIn_none (Image.page?_eq_none.mpr (by rw [Array.size_push]; omega))
  · by_cases inside : place.block.toNat < image.size
    · exact tupleAt_congr (Image.page?_push_old inside)
    · have gone : image.page? place.block = none := Image.page?_eq_none.mpr (by omega)
      rw [tupleAt_none gone]
      by_cases new : place.block.toNat = image.size
      · exact tupleAt_zero (Image.page?_push_new new)
      · exact tupleAt_none (Image.page?_eq_none.mpr (by rw [Array.size_push]; omega))

theorem Geometry.quiet_format (shape : Geometry image contents) {block : BlockNumber}
    (first : block ≠ metaBlock) (at_block : image.page? block = some .zero) :
    Quiet image (image.put block (freshPage regularType)) := by
  have at' := Image.page?_put_same (freshPage regularType) at_block
  refine ⟨shape.sameMap_put first at_block (.regular (fun map => map.ne_zero rfl) regular_freshPage),
    Nat.le_of_eq (Image.size_put ..).symm, fun other index => ?_, fun place => ?_⟩
  · by_cases eq : other = block
    · subst eq
      rw [entryIn_zero at_block, entryIn_regular at' regular_freshPage]
    · exact entryIn_congr (Image.page?_put_other eq)
  · by_cases eq : place.block = block
    · subst eq
      rw [tupleAt_zero at_block, tupleAt_of_regular at' regular_freshPage, itemAt_freshPage]
    · exact tupleAt_congr (Image.page?_put_other eq)

/-- Flagging a regular page keeps it regular with the same items. -/
theorem regular_flagged {page : Page} (regular : Regular page) :
    Regular (flagged page) ∧ ∀ offset, (flagged page).itemAt offset = page.itemAt offset := by
  have same : ∀ {first last}, last ≤ 32764 ∨ 32766 ≤ first → Page.SameOn first last (flagged page) page :=
    fun apart => Page.sameOn_setWord16 _ _ _ (by decide) apart
  obtain ⟨regular', -, -, -, items⟩ := regular.congr (same (.inl (Nat.le_refl _)))
    (same (.inr (Nat.le_refl _)))
  exact ⟨regular', items⟩

theorem Geometry.ne_meta_of_regular (shape : Geometry image contents) {block : BlockNumber} {page : Page}
    (at_block : image.page? block = some page) (regular : Regular page) : block ≠ metaBlock := by
  rintro rfl
  exact absurd ((shape.metaType_of at_block).1.symm.trans regular.kind) (by decide)

theorem Geometry.quiet_flag (shape : Geometry image contents) {block : BlockNumber} {page : Page}
    (at_block : image.page? block = some page) (regular : Regular page) :
    Quiet image (image.put block (flagged page)) := by
  obtain ⟨regular', items⟩ := regular_flagged regular
  have at' := Image.page?_put_same (flagged page) at_block
  refine ⟨shape.sameMap_put (shape.ne_meta_of_regular at_block regular) at_block
    (.regular regular.not_map regular'), Nat.le_of_eq (Image.size_put ..).symm, fun other index => ?_,
    fun place => ?_⟩
  · by_cases eq : other = block
    · subst eq
      rw [entryIn_regular at_block regular, entryIn_regular at' regular']
    · exact entryIn_congr (Image.page?_put_other eq)
  · by_cases eq : place.block = block
    · subst eq
      rw [tupleAt_of_regular at_block regular, tupleAt_of_regular at' regular', items]
    · exact tupleAt_congr (Image.page?_put_other eq)

end Quiet

/-! ## Steps and runs -/

/-- Every step keeps the index sound and its range map in place. -/
theorem Advance.sound {mode : Mode} {scene after : Scene} {contents : Metapage}
    (advance : Advance mode scene after) (sound : Sound scene.image contents) :
    ∃ contents', Sound after.image contents' ∧ Grows scene.image contents after.image contents' := by
  cases advance with
  | grow room =>
      have quiet := sound.shape.quiet_grow room
      exact ⟨contents, quiet.sound sound, .of_sameMap quiet.map quiet.size_le⟩
  | format first at_block =>
      have quiet := sound.shape.quiet_format first at_block
      exact ⟨contents, quiet.sound sound, .of_sameMap quiet.map quiet.size_le⟩
  | flag at_block regular =>
      have quiet := sound.shape.quiet_flag at_block regular
      exact ⟨contents, quiet.sound sound, .of_sameMap quiet.map quiet.size_le⟩
  | commit sound' change =>
      obtain rfl := sound.holds.unique sound'.holds
      have effect := change.effect sound
      exact ⟨_, effect.sound, effect.grows⟩

/-- Every run keeps the index sound and its range map in place. -/
theorem Evolves.sound {mode : Mode} {scene after : Scene} {contents : Metapage}
    (evolves : Evolves mode scene after) (sound : Sound scene.image contents) :
    ∃ contents', Sound after.image contents' ∧ Grows scene.image contents after.image contents' := by
  induction evolves with
  | refl => exact ⟨contents, sound, .refl _ _⟩
  | tail _ advance ih =>
      obtain ⟨contents', sound', grows⟩ := ih
      obtain ⟨contents'', sound'', grows'⟩ := advance.sound sound'
      exact ⟨contents'', sound'', grows.trans grows'⟩

end Warehouse.RangeIndex
