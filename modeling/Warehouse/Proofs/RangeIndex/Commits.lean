import Warehouse.Proofs.RangeIndex.Contracts

/-! # Committing a change

An operation commits a change under locks: it writes the pages that the change concerns,
appends the record of the change to the log, and stamps the pages with the position of the
record. `Ensures.logged` says that the scene is then the one with the change committed. After
that no page is loose that was not loose before. -/

namespace Warehouse.RangeIndex

/-! ## Images with the same pages -/

namespace Image

variable {image after : Image} {pages writes : List (BlockNumber × Page)} {block : BlockNumber} {page : Page}

/-- An image is given by its size and its pages. -/
theorem ext_pages (small : image.size ≤ 2 ^ 32) (size : after.size = image.size)
    (same : ∀ block, after.page? block = image.page? block) : after = image := by
  refine Array.ext size fun i inside inside' => ?_
  have block : (UInt32.ofNat i).toNat = i := UInt32.toNat_ofNat_of_lt' (by simp only [UInt32.size]; omega)
  have := same (UInt32.ofNat i)
  rw [page?, page?, block, Array.getElem?_eq_getElem inside, Array.getElem?_eq_getElem inside'] at this
  exact Option.some.inj this

/-- The pages that are put last count. -/
theorem putAll_putAll (small : image.size ≤ 2 ^ 32) (nodup : (pages.map Prod.fst).Nodup)
    (perm : (writes.map Prod.fst).Perm (pages.map Prod.fst)) :
    (image.putAll writes).putAll pages = image.putAll pages := by
  refine ext_pages (by rw [size_putAll]; exact small) (by simp only [size_putAll]) fun block => ?_
  by_cases mem : block ∈ pages.map Prod.fst
  · by_cases inside : block.toNat < image.size
    · obtain ⟨⟨block', page⟩, entry, rfl⟩ := List.mem_map.mp mem
      rw [page?_putAll_mem nodup entry inside, page?_putAll_mem nodup entry (by rw [size_putAll]; exact inside)]
    · rw [page?_eq_none.mpr (by simp only [size_putAll]; omega),
        page?_eq_none.mpr (by simp only [size_putAll]; omega)]
  · rw [page?_putAll_other mem, page?_putAll_other mem, page?_putAll_other fun h => mem (perm.mem_iff.mp h)]

/-- The order in which different pages are put does not count. -/
theorem putAll_perm (small : image.size ≤ 2 ^ 32) (nodup : (pages.map Prod.fst).Nodup)
    (perm : writes.Perm pages) : image.putAll writes = image.putAll pages := by
  have nodup' : (writes.map Prod.fst).Nodup := (perm.map Prod.fst).nodup_iff.mpr nodup
  refine ext_pages (by rw [size_putAll]; exact small) (by simp only [size_putAll]) fun block => ?_
  by_cases mem : block ∈ pages.map Prod.fst
  · by_cases inside : block.toNat < image.size
    · obtain ⟨⟨block', page⟩, entry, rfl⟩ := List.mem_map.mp mem
      rw [page?_putAll_mem nodup entry inside, page?_putAll_mem nodup' (perm.mem_iff.mpr entry) inside]
    · rw [page?_eq_none.mpr (by simp only [size_putAll]; omega),
        page?_eq_none.mpr (by simp only [size_putAll]; omega)]
  · rw [page?_putAll_other mem, page?_putAll_other fun h => mem ((perm.map Prod.fst).mem_iff.mp h)]

end Image

/-! ## Writing under locks -/

section Writing

variable {mode : Mode} {moment : Moment} {α : Type} {post : α → Moment → Prop} {block : BlockNumber} {page : Page}

theorem Ensures.write {rest : Unit → Procedure α} (held : moment.held ≠ [])
    (h : Ensures mode post (rest ()) (moment.withImage (moment.scene.image.put block page))) :
    Ensures mode post (Procedure.write block page >>= rest) moment :=
  Ensures.locked held h

theorem Ensures.markDirty {rest : Unit → Procedure α} (held : moment.held ≠ [])
    (h : Ensures mode post (rest ()) moment) :
    Ensures mode post (Procedure.markDirty block >>= rest) moment :=
  Ensures.locked held h

theorem Ensures.change {rest : Unit → Procedure α} (held : moment.held ≠ [])
    (h : Ensures mode post (rest ()) (moment.withImage (moment.scene.image.put block page))) :
    Ensures mode post (Procedure.change block page >>= rest) moment :=
  Ensures.bind (Ensures.write held (Ensures.locked held h))

theorem Ensures.remember {rest : Unit → Procedure α} {accessor : Accessor} (held : moment.held ≠ [])
    (keeps : mode = .solo → moment.accessor.Keeps accessor)
    (h : Ensures mode post (rest ()) { moment with accessor }) :
    Ensures mode post (Procedure.remember accessor >>= rest) moment :=
  Ensures.locked held ⟨keeps, h⟩

theorem Ensures.stamp (lsn : Lsn) {post : Unit → Moment → Prop} (pages : List (BlockNumber × Page))
    (held : moment.held ≠ []) (h : post () (moment.withImage
      (moment.scene.image.putAll (pages.map fun entry => (entry.1, entry.2.setLsn lsn))))) :
    Ensures mode post (Procedure.stamp lsn pages) moment := by
  induction pages generalizing moment with
  | nil => exact h
  | cons entry pages ih =>
      rw [Procedure.stamp]
      exact Ensures.write held (ih held h)

/-- After the pages were written, a change is committed by appending its record to the log and
stamping the pages. -/
theorem Ensures.logged {rest : Unit → Procedure α} {scene : Scene} {record : Log.Record}
    {writes pages : List (BlockNumber × Page)} (held : moment.held ≠ []) (drafts : moment.Drafts mode record)
    (small : scene.image.size ≤ 2 ^ 32) (nodup : (pages.map Prod.fst).Nodup) (perm : writes.Perm pages)
    (written : moment.scene = ⟨scene.image.putAll writes, scene.log⟩)
    (h : Ensures mode post (rest ()) { moment with scene := scene.commit record pages }) :
    Ensures mode post (Procedure.logged record pages >>= rest) moment := by
  simp only [Procedure.logged]
  refine Ensures.bind (Ensures.locked held ⟨drafts, ?_⟩)
  simp only [written]
  cases log : scene.log with
  | none =>
      simp only
      have same : scene.commit record pages = moment.scene := by
        simp only [Scene.commit, Scene.stamp, log, Option.map_none, written]
        rw [Image.putAll_perm small nodup perm, List.map_congr_left (fun _ _ => rfl), List.map_id']
      rw [same] at h
      exact h
  | some journal =>
      simp only
      refine Ensures.stamp _ pages held ?_
      have keys : (pages.map fun entry => (entry.1, entry.2.setLsn (journal.position record))).map Prod.fst =
          pages.map Prod.fst := by
        simp only [List.map_map, Function.comp_def]
      have same : scene.commit record pages = ⟨(scene.image.putAll writes).putAll
          (pages.map fun entry => (entry.1, entry.2.setLsn (journal.position record))),
          some (journal.push record)⟩ := by
        rw [Image.putAll_putAll small (by rwa [keys]) (by rw [keys]; exact perm.map _)]
        simp only [Scene.commit, Scene.stamp, log, Option.map_some]
      rw [same] at h
      exact h

/-- Committing a change of the range map or of a binding. -/
theorem Ensures.committed {rest : Unit → Procedure α} {scene : Scene}
    {contents contents' : Metapage} {record : Log.Record}
    {writes pages : List (BlockNumber × Page)} (held : moment.held ≠ []) (evolves : Evolves mode moment.base scene)
    (sound : Sound scene.image contents) (change : Change mode scene contents record pages contents')
    (perm : writes.Perm pages) (written : moment.scene = ⟨scene.image.putAll writes, scene.log⟩)
    (h : Ensures mode post (rest ()) { moment with scene := scene.commit record pages }) :
    Ensures mode post (Procedure.logged record pages >>= rest) moment := by
  have small := Nat.le_of_lt sound.shape.small
  have nodup := change.nodup sound
  have drafts : moment.Drafts mode record :=
    .change evolves sound change (by rw [written, Image.putAll_perm small nodup perm])
  exact Ensures.logged held drafts small nodup perm written h

end Writing

/-! ## Loose pages -/

section Loose

variable {mode : Mode} {scene : Scene} {contents contents' : Metapage} {record : Log.Record}
  {pages : List (BlockNumber × Page)} {block : BlockNumber} {page page' : Page}

theorem isEvacuating_congr {page other : Page} (h : Page.SameOn 32764 32766 page other) :
    isEvacuating page = isEvacuating other := by
  have flags : pageFlags page = pageFlags other := h.word16_eq (Nat.le_refl _) (Nat.le_refl _) _
  rw [isEvacuating, isEvacuating, flags]

theorem isEvacuating_withEntry (page : Page) {index : Nat} (bound : index < entriesPerPage) (place : ItemPointer) :
    isEvacuating (withEntry page index place) = isEvacuating page :=
  isEvacuating_congr ((withEntry_frame page bound place).2.mono (by decide) (by decide))

/-- Every page that a change concerns exists, and a change flags no page. -/
theorem Change.before (change : Change mode scene contents record pages contents')
    (mem : (block, page') ∈ pages) : ∃ page, scene.image.page? block = some page ∧
      (isEvacuating page' = true → isEvacuating page = true) := by
  have entries := contents.addressing.slot_lt
  cases change with
  | extendPlain plain next at_block free at_meta =>
      rcases List.mem_pair.mp mem with eq | eq
      · obtain ⟨rfl, rfl⟩ := Prod.mk.inj eq
        refine ⟨_, at_meta, fun flag => ?_⟩
        rwa [isEvacuating_congr (Metapage.sameOn_write _ _ (.inr (by decide)) (.inr (by decide)))] at flag
      · obtain ⟨rfl, rfl⟩ := Prod.mk.inj eq
        refine ⟨_, at_block, fun flag => ?_⟩
        rw [isEvacuating_freshPage] at flag
        cases flag
  | extendChain chained bound beyond dense free at_meta tail =>
      rcases List.mem_append.mp mem with front | link
      · rcases List.mem_pair.mp front with eq | eq
        · obtain ⟨rfl, rfl⟩ := Prod.mk.inj eq
          refine ⟨_, at_meta, fun flag => ?_⟩
          rwa [isEvacuating_congr (Metapage.sameOn_write _ _ (.inr (by decide)) (.inr (by decide)))] at flag
        · obtain ⟨rfl, rfl⟩ := Prod.mk.inj eq
          refine ⟨_, free, fun flag => ?_⟩
          rw [setLogicalPage, isEvacuating_congr (Page.sameOn_setWord32 _ _ _ _ (.inr (by decide))),
            isEvacuating_freshPage] at flag
          cases flag
      · cases tail with
        | none => exact absurd link List.not_mem_nil
        | some at_last =>
            obtain ⟨rfl, rfl⟩ := Prod.mk.inj (List.mem_singleton.mp link)
            refine ⟨_, at_last, fun flag => ?_⟩
            rwa [setNextMapPage, isEvacuating_congr (Page.sameOn_setWord32 _ _ _ _ (.inr (by decide)))] at flag
  | insert start decoded covered site added stored valid at_map unbound =>
      rcases List.mem_pair.mp mem with eq | eq
      · obtain ⟨rfl, rfl⟩ := Prod.mk.inj eq
        refine ⟨_, site.at_block, fun flag => ?_⟩
        rwa [site.regular.isEvacuating_of_frame stored.frame] at flag
      · obtain ⟨rfl, rfl⟩ := Prod.mk.inj eq
        exact ⟨_, at_map, fun flag => by rwa [isEvacuating_withEntry _ (entries _)] at flag⟩
  | update start decoded covered at_old regular removed deleted ne site added stored valid at_map bound
      valid_old =>
      rcases List.mem_cons.mp mem with eq | mem
      · obtain ⟨rfl, rfl⟩ := Prod.mk.inj eq
        refine ⟨_, at_old, fun flag => ?_⟩
        rwa [regular.isEvacuating_of_frame deleted.frame] at flag
      · rcases List.mem_pair.mp mem with eq | eq
        · obtain ⟨rfl, rfl⟩ := Prod.mk.inj eq
          refine ⟨_, site.at_block, fun flag => ?_⟩
          rwa [site.regular.isEvacuating_of_frame stored.frame] at flag
        · obtain ⟨rfl, rfl⟩ := Prod.mk.inj eq
          exact ⟨_, at_map, fun flag => by rwa [isEvacuating_withEntry _ (entries _)] at flag⟩
  | desummarize start covered at_block regular removed deleted at_map bound valid =>
      rcases List.mem_pair.mp mem with eq | eq
      · obtain ⟨rfl, rfl⟩ := Prod.mk.inj eq
        exact ⟨_, at_map, fun flag => by rwa [isEvacuating_withEntry _ (entries _)] at flag⟩
      · obtain ⟨rfl, rfl⟩ := Prod.mk.inj eq
        refine ⟨_, at_block, fun flag => ?_⟩
        rwa [regular.isEvacuating_of_frame deleted.frame] at flag

/-- A log position that the log has room for is not zero. -/
theorem Journal.position_ne_zero {journal : Journal} {record : Log.Record}
    (room : (journal.push record).stop < 2 ^ 64) : journal.position record ≠ 0 := by
  intro zero
  have lt := journal.stop_lt_push record
  have eq := congrArg UInt64.toNat zero
  rw [stop_push] at lt room
  rw [position, UInt64.toNat_ofNat_of_lt' (by simp only [UInt64.size]; omega), UInt64.toNat_zero] at eq
  omega

/-- After a change only pages are loose that were loose before, and of those that the change
concerns only flagged ones. -/
theorem Change.loose (sound : Sound scene.image contents)
    (change : Change mode scene contents record pages contents')
    (loose : (scene.commit record pages).Loose block) :
    scene.Loose block ∧ ∀ page, (block, page) ∈ pages → isEvacuating page = true := by
  obtain ⟨journal', page', log, room, at', cause⟩ := loose
  obtain ⟨journal, log_eq, rfl⟩ := Option.map_eq_some_iff.mp log
  have room' := Nat.lt_trans (journal.stop_lt_push record) room
  have nodup := change.nodup sound
  by_cases mem : block ∈ pages.map Prod.fst
  · obtain ⟨⟨block, page⟩, entry, rfl⟩ := List.mem_map.mp mem
    obtain ⟨before, at_before, flags⟩ := change.before entry
    rw [Scene.page?_commit_mem record page nodup entry at_before] at at'
    obtain rfl := Option.some.inj at'
    have flag : isEvacuating page = true := by
      rcases cause with zero | flag
      · rw [Scene.stamp, log_eq] at zero
        simp only [Page.lsn_setLsn] at zero
        exact absurd zero (Journal.position_ne_zero room)
      · rwa [isEvacuating_congr ((scene.sameOn_stamp record page).mono (by decide) (by decide))] at flag
    refine ⟨⟨journal, before, log_eq, room', at_before, .inr (flags flag)⟩, fun other entry' => ?_⟩
    have same : (block, other) = (block, page) := List.inj_on_of_nodup_map nodup entry' entry rfl
    rwa [(Prod.mk.inj same).2]
  · rw [Scene.page?_commit_other mem] at at'
    refine ⟨⟨journal, page', log_eq, room', at', cause⟩, fun page entry => ?_⟩
    exact absurd (List.mem_map.mpr ⟨_, entry, rfl⟩) mem

end Loose

end Warehouse.RangeIndex
