import Warehouse.Proofs.RangeIndex.Effects

/-! # Pages that take no new summaries

A page is flagged before its summaries are moved away from it. From then on it only loses
tuples, until it becomes a page of the range map; so a tuple that was read on it is still the
same when it is moved, or it is gone. `Evolves.retains` says so for whatever any operations do
in the meantime. -/

namespace Warehouse.RangeIndex

/-! ## Flagged pages -/

section Flagged

variable {page : Page}

theorem lsn_flagged (page : Page) : (flagged page).lsn = page.lsn :=
  (Page.sameOn_setWord16 page 32764 _ (by decide) (.inl (by decide))).lsn_eq (Nat.le_refl 0) (Nat.le_refl 8)

theorem pageFlags_flagged (page : Page) : pageFlags (flagged page) = pageFlags page ||| evacuateFlag :=
  Page.word16_setWord16_same page 32764 _ (by decide) (by decide)

theorem flagged_flagged (page : Page) : flagged (flagged page) = flagged page := by
  rw [flagged, pageFlags_flagged, UInt16.or_assoc, UInt16.or_self]
  exact Page.setWord16_setWord16 _ page

theorem isEvacuating_flagged (page : Page) : isEvacuating (flagged page) = true := by
  have absorbed : (pageFlags page ||| evacuateFlag) &&& evacuateFlag = evacuateFlag := by
    refine UInt16.toBitVec_inj.mp (BitVec.eq_of_getLsbD_eq fun i bound => ?_)
    simp only [UInt16.toBitVec_and, UInt16.toBitVec_or, BitVec.getLsbD_and, BitVec.getLsbD_or]
    exact (by decide : ∀ front back : Bool, ((front || back) && back) = back) _ _
  rw [isEvacuating, pageFlags_flagged, absorbed]
  rfl

theorem flagged_setLsn (page : Page) (lsn : Lsn) : (flagged page).setLsn lsn = flagged (page.setLsn lsn) := by
  have flags : pageFlags (page.setLsn lsn) = pageFlags page :=
    (Page.sameOn_setLsn page lsn (by decide)).word16_eq (Nat.le_refl _) (Nat.le_refl _) _
  rw [flagged, flagged, flags]
  exact (Page.patch_comm page _ _ (by simp)).symm

/-- Deleting an item of a flagged page. -/
theorem flagged_deleteItem {offset : Nat} {after : Page} (regular : Regular page)
    (removed : (flagged page).deleteItem offset = .ok after) :
    ∃ after', page.deleteItem offset = .ok after' ∧ Regular after' ∧ after = flagged after' := by
  obtain ⟨after', removed', deleted⟩ := Page.deleteItem_spec regular.packed offset
  have same : Page.SameOn 32752 pageSize after' page := by
    have := deleted.frame.special
    rwa [regular.special_eq] at this
  have flags : pageFlags after' = pageFlags page := same.word16_eq (by decide) (by decide) _
  refine ⟨after', removed', regular.of_frame deleted.packed deleted.frame, ?_⟩
  rw [flagged, setPageFlags, Page.deleteItem_setWord16 _ regular.packed (by rw [regular.special_eq]; decide),
    removed'] at removed
  rw [flagged, flags]
  exact (Except.ok.inj removed).symm

end Flagged

/-! ## What stays on a flagged page -/

/-- The page takes no new tuples: it is flagged, or it is one of the range map. -/
def Closed (image : Image) (block : BlockNumber) : Prop :=
  ∃ page, image.page? block = some page ∧ (MapPage page ∨ Regular page ∧ isEvacuating page = true)

/-- The page is closed, and if it has a tuple at the place it is the given one. -/
structure Retains (image : Image) (place : ItemPointer) (tuple : List UInt8) : Prop where
  closed : Closed image place.block
  same : ∀ bytes, tupleAt image place = some bytes → bytes = tuple

/-- The block is closed afterwards, and it has no tuples that it did not have before. -/
structure Shuts (image after : Image) (block : BlockNumber) : Prop where
  closed : Closed after block
  tuples : ∀ place, place.block = block → tupleAt after place = none ∨ tupleAt after place = tupleAt image place

section Closed

variable {mode : Mode} {scene : Scene} {image after : Image} {contents contents' : Metapage} {record : Log.Record}
  {pages : List (BlockNumber × Page)} {block other : BlockNumber} {page page' : Page} {place : ItemPointer}
  {tuple : List UInt8}

theorem Retains.of_shuts (retains : Retains image place tuple) (shuts : Shuts image after place.block) :
    Retains after place tuple where
  closed := shuts.closed
  same bytes eq := by
    rcases shuts.tuples place rfl with none | same
    · cases none.symm.trans eq
    · exact retains.same bytes (same.symm.trans eq)

/-- A flagged page retains the tuples that it has. -/
theorem retains_of_item (at_block : image.page? place.block = some page) (regular : Regular page)
    (flag : isEvacuating page = true) (item : page.itemAt place.offset.toNat = some tuple) :
    Retains image place tuple where
  closed := ⟨page, at_block, .inr ⟨regular, flag⟩⟩
  same bytes eq := by
    rw [tupleAt_of_regular at_block regular, item] at eq
    exact (Option.some.inj eq).symm

theorem shuts_of_same (closed : Closed image block) (same : after.page? block = image.page? block) :
    Shuts image after block := by
  obtain ⟨page, at_block, kind⟩ := closed
  exact ⟨⟨page, same.trans at_block, kind⟩, fun place here => .inr (tupleAt_congr (here ▸ same))⟩

/-- A page of the range map is closed and has no tuples. -/
theorem shuts_of_map (at_after : after.page? block = some page) (map : MapPage page) : Shuts image after block :=
  ⟨⟨page, at_after, .inl map⟩, fun _ here => .inl (tupleAt_map (here ▸ at_after) map)⟩

theorem Closed.ne_zero (closed : Closed image block) : image.page? block ≠ some .zero := by
  intro zero
  obtain ⟨page, at_block, kind⟩ := closed
  obtain rfl := Option.some.inj (at_block.symm.trans zero)
  rcases kind with map | ⟨regular, -⟩
  · exact map.ne_zero rfl
  · exact regular.ne_zero rfl

theorem Closed.ne_meta (closed : Closed image block) (shape : Geometry image contents) : block ≠ metaBlock := by
  rintro rfl
  obtain ⟨page, at_block, kind⟩ := closed
  have metaKind := (shape.metaType_of at_block).1
  rcases kind with map | ⟨regular, -⟩
  · exact absurd (metaKind.symm.trans map.kind) (by decide)
  · exact absurd (metaKind.symm.trans regular.kind) (by decide)

/-- A tuple is never stored on a closed page. -/
theorem Closed.ne_site {fresh : Bool} (closed : Closed scene.image block) (site : Site mode scene other page fresh) :
    block ≠ other := by
  rintro rfl
  obtain ⟨page', at_block, kind⟩ := closed
  obtain rfl := Option.some.inj (at_block.symm.trans site.at_block)
  rcases kind with map | ⟨-, flag⟩
  · exact absurd (map.kind.symm.trans site.regular.kind) (by decide)
  · cases flag.symm.trans site.takes

/-- Deleting an item leaves a closed page closed. -/
theorem shuts_of_deleted {offset : OffsetNumber} (closed : Closed scene.image block)
    (at_block : scene.image.page? block = some page) (regular : Regular page)
    (deleted : page.Deleted offset.toNat page') (at_after : after.page? block = some (scene.stamp record page')) :
    Shuts scene.image after block := by
  obtain ⟨page'', at_block', kind⟩ := closed
  obtain rfl := Option.some.inj (at_block'.symm.trans at_block)
  have flag : isEvacuating page'' = true := by
    rcases kind with map | ⟨-, flag⟩
    · exact absurd (map.kind.symm.trans regular.kind) (by decide)
    · exact flag
  obtain ⟨regular', -, flags⟩ := scene.regular_stamp record (regular.of_frame deleted.packed deleted.frame)
  refine ⟨⟨_, at_after, .inr ⟨regular', ?_⟩⟩, fun place here => ?_⟩
  · rw [flags, regular.isEvacuating_of_frame deleted.frame, flag]
  · rw [tupleAt_deleted at_block regular deleted at_after here]
    split
    · exact .inl rfl
    · exact .inr rfl

/-- A change leaves closed pages closed and brings no tuple to them. -/
theorem Change.shuts (sound : Sound scene.image contents) (change : Change mode scene contents record pages contents')
    (closed : Closed scene.image block) : Shuts scene.image (scene.commit record pages).image block := by
  have nodup := change.nodup sound
  have shape := sound.shape
  by_cases mem : block ∈ pages.map Prod.fst
  · obtain ⟨⟨block, after⟩, entry, rfl⟩ := List.mem_map.mp mem
    have ⟨before, at_block, _⟩ := closed
    have at_after : (scene.commit record pages).image.page? block = some (scene.stamp record after) :=
      Scene.page?_commit_mem record after nodup entry at_block
    have to_map : MapPage after → Shuts scene.image (scene.commit record pages).image block := fun map =>
      shuts_of_map at_after (scene.map_stamp record map).1
    have redirected : ∀ {heapBlock mapBlock : BlockNumber} {mapPage : Page} {place : ItemPointer},
        Covers scene.image contents heapBlock mapBlock → scene.image.page? mapBlock = some mapPage →
        after = withEntry mapPage (contents.addressing.slot heapBlock) place → MapPage after := by
      rintro heapBlock mapBlock mapPage place covered at_map rfl
      exact (map_withEntry (mapPage_of_covers shape covered at_map) (contents.addressing.slot_lt heapBlock) place).1
    cases change with
    | extendPlain plain next at_target free at_meta =>
        rcases List.mem_pair.mp entry with eq | eq <;> obtain ⟨rfl, rfl⟩ := Prod.mk.inj eq
        · exact absurd rfl (closed.ne_meta shape)
        · exact to_map mapPage_freshPage
    | extendChain chained bound beyond dense free at_meta tail =>
        rcases List.mem_append.mp entry with front | link
        · rcases List.mem_pair.mp front with eq | eq <;> obtain ⟨rfl, rfl⟩ := Prod.mk.inj eq
          · exact absurd rfl (closed.ne_meta shape)
          · exact absurd free closed.ne_zero
        · cases tail with
          | none => exact absurd link List.not_mem_nil
          | some at_last =>
              obtain ⟨rfl, rfl⟩ := Prod.mk.inj (List.mem_singleton.mp link)
              exact to_map (map_setNextMapPage (shape.tail_page chained bound at_last).1 _).1
    | insert start decoded covered site added stored valid at_map unbound =>
        rcases List.mem_pair.mp entry with eq | eq <;> obtain ⟨rfl, rfl⟩ := Prod.mk.inj eq
        · exact absurd rfl (closed.ne_site site)
        · exact to_map (redirected covered at_map rfl)
    | update start decoded covered at_old regular removed deleted ne site added stored valid at_map bound valid_old =>
        rcases List.mem_cons.mp entry with eq | entry
        · obtain ⟨rfl, rfl⟩ := Prod.mk.inj eq
          exact shuts_of_deleted closed at_old regular deleted at_after
        · rcases List.mem_pair.mp entry with eq | eq <;> obtain ⟨rfl, rfl⟩ := Prod.mk.inj eq
          · exact absurd rfl (closed.ne_site site)
          · exact to_map (redirected covered at_map rfl)
    | desummarize start covered at_place regular removed deleted at_map bound valid =>
        rcases List.mem_pair.mp entry with eq | eq <;> obtain ⟨rfl, rfl⟩ := Prod.mk.inj eq
        · exact to_map (redirected covered at_map rfl)
        · exact shuts_of_deleted closed at_place regular deleted at_after
  · exact shuts_of_same closed (Scene.page?_commit_other mem)

/-- A step leaves closed pages closed and brings no tuple to them. -/
theorem Advance.shuts {after : Scene} (advance : Advance mode scene after) (sound : Sound scene.image contents)
    (closed : Closed scene.image block) : Shuts scene.image after.image block := by
  cases advance with
  | grow room =>
      have ⟨page, at_block, _⟩ := closed
      exact shuts_of_same closed (Image.page?_push_old (Image.lt_of_page? at_block))
  | format first at_zero =>
      refine shuts_of_same closed (Image.page?_put_other ?_)
      rintro rfl
      exact closed.ne_zero at_zero
  | flag at_page regular =>
      rename_i flaggedBlock page
      by_cases eq : block = flaggedBlock
      · subst eq
        have quiet := sound.shape.quiet_flag at_page regular
        exact ⟨⟨_, Image.page?_put_same _ at_page, .inr ⟨(regular_flagged regular).1, isEvacuating_flagged page⟩⟩,
          fun place _ => .inr (quiet.tuples place)⟩
      · exact shuts_of_same closed (Image.page?_put_other eq)
  | commit sound' change =>
      obtain rfl := sound.holds.unique sound'.holds
      exact change.shuts sound closed

/-- Whatever operations do, a closed page keeps its tuples or loses them. -/
theorem Evolves.retains {after : Scene} (evolves : Evolves mode scene after) (sound : Sound scene.image contents)
    (retains : Retains scene.image place tuple) : Retains after.image place tuple := by
  induction evolves with
  | refl => exact retains
  | tail evolves step ih =>
      obtain ⟨contents', sound', -⟩ := Evolves.sound evolves sound
      exact ih.of_shuts (step.shuts sound' ih.closed)

end Closed

end Warehouse.RangeIndex
