import Warehouse.Proofs.RangeIndex.Replays
import Warehouse.Proofs.RangeIndex.Creation

/-! # What a log tells about pages

Making the changes of a log again gives pages that echo those of the index: a page that no
record is about is missing or one of zeros, and any other is the page itself, but for the flag
that keeps new summaries away, which is never logged. `Change.retells` says for every kind of
record that making it again on an echo of a page gives an echo of the changed page. The one
exception is a tuple that is stored on a page whose initialisation was not logged. -/

namespace Warehouse

/-- Where a record stores a tuple, and whether the page is initialised for it. -/
def Log.Record.stores : Log.Record → Option (BlockNumber × Bool)
  | .insert _ _ _ _ block _ _ fresh => some (block, fresh)
  | .update _ _ _ _ _ _ block _ _ fresh => some (block, fresh)
  | _ => none

namespace RangeIndex

open Recovery

/-! ## Echoes -/

/-- The second page is what the log tells about the first. -/
inductive Echoes (live shadow : Page) : Prop
  | unlogged (unstamped : live.lsn = 0) (blank : live = .zero ∨ Regular live ∧ ∀ offset, live.itemAt offset = none)
      (zero : shadow = .zero)
  | logged (stamped : live.lsn ≠ 0) (same : shadow = live)
  | flagged (stamped : live.lsn ≠ 0) (regular : Regular shadow) (flag : live = flagged shadow)

namespace Echoes

variable {live shadow : Page}

/-- A page of the range map or the metapage is told as it is. -/
theorem eq_of_not_regular (echoes : Echoes live shadow) (ne : live ≠ .zero) (kind : pageType live ≠ regularType) :
    shadow = live := by
  cases echoes with
  | unlogged _ blank _ =>
      rcases blank with zero | ⟨regular, -⟩
      · exact absurd zero ne
      · exact absurd regular.kind kind
  | logged _ same => exact same
  | flagged _ regular flag => exact absurd (flag ▸ (regular_flagged regular).1.kind) kind

theorem eq_of_map (echoes : Echoes live shadow) (map : MapPage live) : shadow = live :=
  echoes.eq_of_not_regular map.ne_zero (by rw [map.kind]; decide)

/-- A page that takes new summaries is told as it is once it was logged. -/
theorem eq_of_takes (echoes : Echoes live shadow) (stamped : live.lsn ≠ 0) (takes : isEvacuating live = false) :
    shadow = live := by
  cases echoes with
  | unlogged unstamped _ _ => exact absurd unstamped stamped
  | logged _ same => exact same
  | flagged _ regular flag =>
      rw [flag, isEvacuating_flagged] at takes
      cases takes

/-- A page and its echo have the same entries and the same items. -/
theorem alike (echoes : Echoes live shadow) : shadow = live ∨ isMap live = false ∧ isMap shadow = false ∧
    ∀ offset, (if isRegular shadow then shadow.itemAt offset else none) =
      if isRegular live then live.itemAt offset else none := by
  have unmapped : ∀ {page}, Regular page → isMap page = false := fun regular =>
    Bool.eq_false_iff.mpr fun map => absurd (regular.kind.symm.trans (isMap_iff.mp map)) (by decide)
  cases echoes with
  | unlogged _ blank zero =>
      rcases blank with rfl | ⟨regular, empty⟩
      · exact .inl zero
      · refine .inr ⟨unmapped regular, ?_, fun offset => ?_⟩
        · rw [zero]
          simp [isMap, pageType, mapType]
        · rw [if_pos regular.isRegular, empty, zero, if_neg]
          simp [isRegular, pageType, regularType]
  | logged _ same => exact .inl same
  | flagged _ regular flag =>
      obtain ⟨regular', items⟩ := regular_flagged regular
      subst flag
      refine .inr ⟨unmapped regular', unmapped regular, fun offset => ?_⟩
      rw [if_pos regular.isRegular, if_pos regular'.isRegular, items]

/-- The echo is not younger than the page. -/
theorem lsn_le (echoes : Echoes live shadow) : shadow.lsn ≤ live.lsn := by
  cases echoes with
  | unlogged _ _ zero =>
      rw [zero, Page.lsn_zero]
      exact UInt64.zero_le
  | logged _ same => exact same ▸ UInt64.le_refl _
  | flagged _ _ flag =>
      rw [flag, lsn_flagged]
      exact UInt64.le_refl _

theorem flag (echoes : Echoes live shadow) (regular : Regular live) : Echoes (RangeIndex.flagged live) shadow := by
  cases echoes with
  | unlogged unstamped blank zero =>
      refine .unlogged (by rw [lsn_flagged, unstamped]) (.inr ⟨(regular_flagged regular).1, fun offset => ?_⟩) zero
      rw [(regular_flagged regular).2]
      rcases blank with rfl | ⟨-, empty⟩
      · exact absurd rfl regular.ne_zero
      · exact empty offset
  | logged stamped same => exact .flagged (by rwa [lsn_flagged]) (same ▸ regular) (same ▸ rfl)
  | flagged stamped regular flag =>
      exact .flagged (by rwa [lsn_flagged]) regular (by rw [flag, flagged_flagged])

end Echoes

/-! ## Making changes again -/

/-- Making the change on an echo of a page gives the changed page, but for the flag. -/
def Remakes (change : PageChange) (live after : Page) : Prop :=
  ∀ shadow, Echoes live shadow → ∃ after', change.apply shadow = (.ok (), after') ∧
    (after' = after ∨ Regular after' ∧ after = flagged after')

/-- The stamped pages echo each other. -/
theorem Remakes.echoes {change : PageChange} {live after shadow : Page} {lsn : Lsn}
    (remakes : Remakes change live after)
    (echoes : Echoes live shadow) (older : ¬ lsn ≤ shadow.lsn) : ∃ shadow', redoPage lsn change shadow = some shadow' ∧
      Echoes (after.setLsn lsn) shadow' := by
  have stamped : (after.setLsn lsn).lsn ≠ 0 := by
    rw [Page.lsn_setLsn]
    rintro rfl
    exact older UInt64.zero_le
  obtain ⟨after', made, same⟩ := remakes shadow echoes
  refine ⟨after'.setLsn lsn, by rw [redoPage, if_neg older, made], ?_⟩
  rcases same with rfl | ⟨regular, rfl⟩
  · exact .logged stamped rfl
  · refine .flagged stamped ?_ (flagged_setLsn after' lsn)
    have same : Page.SameOn 8 pageSize (after'.setLsn lsn) after' := Page.sameOn_setLsn after' lsn (Nat.le_refl 8)
    exact (regular.congr (same.mono (Nat.le_refl _) (by decide)) (same.mono (by decide) (Nat.le_refl _))).1

section Remaking

variable {index : String} {block : BlockNumber} {live after : Page} {contents contents' : Metapage}
  {offset : OffsetNumber} {tuple : List UInt8}

/-- A page that is made anew does not depend on what it was. -/
theorem remakes_new (block : BlockNumber) (live after : Page) : Remakes ⟨block, fun _ => (.ok (), after)⟩ live after :=
  fun _ _ => ⟨after, rfl, .inl rfl⟩

theorem remakes_metapage {target previousTail : BlockNumber} {appendOnly : Bool} {sequence logicalPage : UInt32}
    (holds : Metapage.Holds live contents)
    (extended : extendContents contents target appendOnly sequence logicalPage previousTail = .ok contents') :
    Remakes ⟨metaBlock, extendMetapage index target appendOnly sequence logicalPage previousTail⟩ live
      (contents'.write live) := by
  intro shadow echoes
  have kind := (Metapage.holds_iff.mp holds).1
  obtain rfl : shadow = live := by
    refine echoes.eq_of_not_regular ?_ (by rw [kind]; decide)
    rintro rfl
    exact absurd kind (by simp [pageType, metaType])
  refine ⟨contents'.write shadow, ?_, .inl rfl⟩
  simp only [extendMetapage, holds index metaBlock, extended]
  rfl

theorem remakes_link (map : MapPage live) (target : BlockNumber) :
    Remakes ⟨block, fun page => (.ok (), setNextMapPage page target)⟩ live (setNextMapPage live target) := by
  intro shadow echoes
  obtain rfl := echoes.eq_of_map map
  exact ⟨_, rfl, .inl rfl⟩

theorem remakes_redirect {addressing : Addressing} (map : MapPage live) (valid : addressing.Valid)
    (heapBlock : BlockNumber) (place : ItemPointer) :
    Remakes (redirect block addressing heapBlock place) live (withEntry live (addressing.slot heapBlock) place) := by
  intro shadow echoes
  obtain rfl := echoes.eq_of_map map
  refine ⟨_, ?_, .inl rfl⟩
  simp only [redirect, setEntryFor_eq shadow place (Addressing.entryIndex_eq valid heapBlock)
    (addressing.slot_lt heapBlock)]
  rfl

theorem remakes_addTuple {fresh : Bool} (fresh_eq : fresh = true → live = freshPage regularType)
    (logged : fresh = false → live.lsn ≠ 0) (takes : isEvacuating live = false)
    (added : live.addItem tuple (some offset.toNat) = .ok (some (offset.toNat, after))) :
    Remakes ⟨block, addTuple block tuple offset fresh⟩ live after := by
  intro shadow echoes
  refine ⟨after, ?_, .inl rfl⟩
  have page : (if fresh then freshPage regularType else shadow) = live := by
    cases fresh with
    | true => exact (fresh_eq rfl).symm
    | false => exact echoes.eq_of_takes (logged rfl) takes
  simp only [addTuple, page, added]

theorem remakes_deleteAt (regular : Regular live) (stored : ∃ item, live.itemAt offset.toNat = some item)
    (removed : live.deleteItem offset.toNat = .ok after) : Remakes ⟨block, deleteAt offset⟩ live after := by
  intro shadow echoes
  cases echoes with
  | unlogged _ blank _ =>
      obtain ⟨item, at_offset⟩ := stored
      rcases blank with zero | ⟨-, empty⟩
      · exact absurd zero regular.ne_zero
      · rw [empty] at at_offset
        cases at_offset
  | logged _ same =>
      subst same
      refine ⟨after, ?_, .inl rfl⟩
      simp only [deleteAt, removed]
      rfl
  | flagged _ regular' flag =>
      subst flag
      obtain ⟨after', removed', regular'', same⟩ := flagged_deleteItem regular' removed
      refine ⟨after', ?_, .inr ⟨regular'', same⟩⟩
      simp only [deleteAt, removed']
      rfl

end Remaking

/-- Making a record again on echoes of pages gives what the record made of the pages. -/
def Retells (index : String) (image : Image) (record : Log.Record) (pages : List (BlockNumber × Page)) : Prop :=
  List.Forall₂ (fun change entry => change.block = entry.1 ∧ Remakes change (image.pageAt entry.1) entry.2)
    (changesOf index record) pages

/-- No tuple is stored on a page that was neither initialised for it nor logged before. -/
def Founded (image : Image) (record : Log.Record) : Prop :=
  ∀ block, record.stores = some (block, false) → (image.pageAt block).lsn ≠ 0

section Changes

variable {mode : Mode} {scene : Scene} {contents contents' : Metapage} {record : Log.Record}
  {pages : List (BlockNumber × Page)} {index : String}

theorem addedMapPage_plain (number : UInt32) : addedMapPage false number = freshPage mapType :=
  if_neg Bool.false_ne_true

theorem addedMapPage_chain (number : UInt32) : addedMapPage true number = setLogicalPage (freshPage mapType) number :=
  if_pos rfl

/-- What recovery makes of the contents of the metapage when a chain has got a page. -/
theorem extendContents_chain {sequence : Nat} (bound : sequence < sequenceCount) (block : BlockNumber)
    (number : UInt32) :
    extendContents contents block true (UInt32.ofNat sequence) number (contents.chain sequence).last =
      .ok (contents.withGrown sequence block number) := by
  have small : (UInt32.ofNat sequence).toNat = sequence :=
    UInt32.toNat_ofNat_of_lt' (Nat.lt_trans bound (by decide))
  have chain : contents.chains[sequence] = contents.chain sequence := by
    rw [Metapage.chain, Vector.getElem?_eq_getElem bound, Option.getD_some]
  simp only [extendContents, if_true, small, bound, dite_true, chain, Chains.set_eq_setChain]
  rfl

/-- A valid entry points at an item. -/
theorem Sound.item_of_entry {image : Image} {heapBlock mapBlock : BlockNumber} {place : ItemPointer}
    {mapPage page : Page}
    (sound : Sound image contents) (covered : Covers image contents heapBlock mapBlock)
    (at_map : image.page? mapBlock = some mapPage)
    (bound : entryAt mapPage (contents.addressing.slot heapBlock) = place)
    (valid : place.isValid = true) (at_block : image.page? place.block = some page) (regular : Regular page) :
    ∃ bytes, page.itemAt place.offset.toNat = some bytes := by
  obtain ⟨bytes, -, tuple, -⟩ := sound.linked.pointed _ _ _
    (entryIn_valid at_map (mapPage_of_covers sound.shape covered at_map) (contents.addressing.slot_lt heapBlock)
      bound valid)
  exact ⟨bytes, (tupleAt_of_regular at_block regular).symm.trans tuple⟩

/-- Every kind of record is retold, unless it stores a tuple on a page that was never logged. -/
theorem Change.retells (sound : Sound scene.image contents) (founded : Founded scene.image record)
    (change : Change mode scene contents record pages contents') : Retells index scene.image record pages := by
  have shape := sound.shape
  have valid := shape.valid
  cases change with
  | extendPlain plain next at_block free at_meta =>
      refine .cons ⟨rfl, ?_⟩ (.cons ⟨rfl, ?_⟩ .nil)
      · rw [Image.pageAt_of_page? at_meta]
        exact remakes_metapage (shape.metaType_of at_meta).2 rfl
      · rw [← addedMapPage_plain 0]
        exact remakes_new _ _ _
  | extendChain chained bound beyond dense free at_meta tail =>
      rename_i sequence block number metapage linked
      have metapage : Remakes ⟨metaBlock, extendMetapage index block true (UInt32.ofNat sequence) number
          (contents.chain sequence).last⟩ (scene.image.pageAt metaBlock)
          ((contents.withGrown sequence block number).write metapage) := by
        rw [Image.pageAt_of_page? at_meta]
        exact remakes_metapage (shape.metaType_of at_meta).2 (extendContents_chain bound block number)
      have first := remakes_new block (scene.image.pageAt block) (addedMapPage true number)
      rw [← addedMapPage_chain]
      cases tail with
      | none empty =>
          rw [Retells, empty]
          rw [empty] at metapage
          exact .cons ⟨rfl, metapage⟩ (.cons ⟨rfl, first⟩ .nil)
      | some at_last =>
          have present := Image.ne_invalid shape.small at_last
          have linked : (true && (contents.chain sequence).last != invalidBlock) = true := by
            simpa using present
          rw [Retells, changesOf, if_pos linked]
          refine .cons ⟨rfl, metapage⟩ (.cons ⟨rfl, first⟩ (.cons ⟨rfl, ?_⟩ .nil))
          rw [Image.pageAt_of_page? at_last]
          exact remakes_link (shape.tail_page chained bound at_last).1 block
  | insert start decoded covered site added stored valid_place at_map unbound =>
      refine .cons ⟨rfl, ?_⟩ (.cons ⟨rfl, ?_⟩ .nil)
      · have logged := founded _ ∘ (congrArg (fun fresh => some (_, fresh)))
        rw [Image.pageAt_of_page? site.at_block] at logged ⊢
        exact remakes_addTuple site.fresh_eq logged site.takes added
      · rw [Image.pageAt_of_page? at_map]
        exact remakes_redirect (mapPage_of_covers shape covered at_map) valid _ _
  | update start decoded covered at_old regular removed deleted ne site added stored valid_place at_map bound
      valid_old =>
      rename_i heapBlock mapBlock old new tuple payload fresh oldPage oldPage' page page' mapPage
      have map := mapPage_of_covers shape covered at_map
      rw [Retells, changesOf, if_neg ne]
      refine .cons ⟨rfl, ?_⟩ (.cons ⟨rfl, ?_⟩ (.cons ⟨rfl, ?_⟩ .nil))
      · rw [Image.pageAt_of_page? at_old]
        exact remakes_deleteAt regular (sound.item_of_entry covered at_map bound valid_old at_old regular) removed
      · have logged := founded _ ∘ (congrArg (fun fresh => some (_, fresh)))
        rw [Image.pageAt_of_page? site.at_block] at logged ⊢
        exact remakes_addTuple site.fresh_eq logged site.takes added
      · rw [Image.pageAt_of_page? at_map]
        exact remakes_redirect map valid _ _
  | desummarize start covered at_block regular removed deleted at_map bound valid_place =>
      rename_i heapBlock mapBlock place page page' mapPage
      have map := mapPage_of_covers shape covered at_map
      refine .cons ⟨rfl, ?_⟩ (.cons ⟨rfl, ?_⟩ .nil)
      · rw [Image.pageAt_of_page? at_map]
        exact remakes_redirect map valid _ _
      · rw [Image.pageAt_of_page? at_block]
        exact remakes_deleteAt regular (sound.item_of_entry covered at_map bound valid_place at_block regular) removed

theorem Retells.blocks {image : Image} (retells : Retells index image record pages) :
    (changesOf index record).map PageChange.block = pages.map Prod.fst := by
  rw [← List.forall₂_eq_eq_eq, List.forall₂_map_left_iff, List.forall₂_map_right_iff]
  exact retells.imp fun _ _ both => both.1

theorem Retells.remakes {image : Image} {change : PageChange} (retells : Retells index image record pages)
    (mem : change ∈ changesOf index record) :
    ∃ page, (change.block, page) ∈ pages ∧ Remakes change (image.pageAt change.block) page := by
  rw [Retells] at retells
  generalize changesOf index record = changes at retells mem
  induction retells with
  | nil => exact absurd mem List.not_mem_nil
  | @cons first entry changes pages both _ ih =>
      rcases List.mem_cons.mp mem with rfl | mem
      · obtain ⟨block, remakes⟩ := both
        rw [block]
        exact ⟨entry.2, List.mem_cons_self, remakes⟩
      · obtain ⟨page, inside, remakes⟩ := ih mem
        exact ⟨page, List.mem_cons_of_mem _ inside, remakes⟩

end Changes

/-! ## What the log has told so far -/

/-- Making the changes of the log again, on no pages, gives echoes of all pages. -/
structure Retold (index : String) (scene : Scene) (journal : Journal) (shadow : Image) : Prop where
  log_eq : scene.log = some journal
  redone : redoLog index journal.records #[] = some shadow
  size_le : shadow.size ≤ scene.image.size
  stamped : ∀ block, (scene.image.pageAt block).lsn.toNat ≤ journal.stop
  echoes : ∀ block, Echoes (scene.image.pageAt block) (shadow.pageAt block)
  apart : Apart index journal.records

namespace Retold

variable {mode : Mode} {index : String} {scene after : Scene} {journal : Journal} {shadow : Image}
  {contents contents' : Metapage} {record : Log.Record} {pages : List (BlockNumber × Page)}

theorem spanOf_le {blocks : List BlockNumber} {size : Nat} (h : ∀ block ∈ blocks, block.toNat < size) :
    spanOf blocks ≤ size := by
  induction blocks with
  | nil => exact Nat.zero_le _
  | cons block blocks ih =>
      rw [spanOf_cons]
      have first := h block List.mem_cons_self
      have rest := ih fun other mem => h other (List.mem_cons_of_mem _ mem)
      omega

theorem toNat_position (room : (journal.push record).stop < 2 ^ 64) :
    (journal.position record).toNat = (journal.push record).stop := by
  rw [Journal.stop_push] at room ⊢
  exact UInt64.toNat_ofNat_of_lt' room

/-- No page has a change that is only about to be logged. -/
theorem older (retold : Retold index scene journal shadow) (room : (journal.push record).stop < 2 ^ 64)
    (block : BlockNumber) : ¬ journal.position record ≤ (shadow.pageAt block).lsn := by
  intro le
  have lt := journal.stop_lt_push record
  have stamped := retold.stamped block
  have echo := UInt64.le_iff_toNat_le.mp (UInt64.le_trans le (retold.echoes block).lsn_le)
  rw [toNat_position room] at echo
  omega

/-- What is committed is told by the record that is logged, if making the record again on
echoes of the pages gives what the record made of them. -/
theorem push (retold : Retold index scene journal shadow) (small : scene.image.size < 2 ^ 32)
    (nodup : (pages.map Prod.fst).Nodup) (present : ∀ entry ∈ pages, ∃ before, scene.image.page? entry.1 = some before)
    (retells : Retells index scene.image record pages) (room : (journal.push record).stop < 2 ^ 64) :
    ∃ shadow', redoAll (journal.position record) (changesOf index record) shadow = some shadow' ∧
      Retold index (scene.commit record pages) (journal.push record) shadow' := by
  have nodup' : ((changesOf index record).map PageChange.block).Nodup := retells.blocks ▸ nodup
  have made : ∀ change ∈ changesOf index record, ∃ page before page', (change.block, page) ∈ pages ∧
      scene.image.page? change.block = some before ∧
      redoPage (journal.position record) change (shadow.pageAt change.block) = some page' ∧
      Echoes (page.setLsn (journal.position record)) page' := by
    intro change mem
    obtain ⟨page, inside, remakes⟩ := retells.remakes mem
    obtain ⟨before, at_before⟩ := present _ inside
    obtain ⟨page', made, echoes⟩ := remakes.echoes (retold.echoes change.block) (retold.older room change.block)
    exact ⟨page, before, page', inside, at_before, made, echoes⟩
  obtain ⟨shadow', again⟩ := exists_redoAll nodup' fun change mem =>
    have ⟨_, _, page', _, at_before, made, _⟩ := made change mem
    ⟨Image.ne_invalid small at_before, page', made⟩
  have redone := redoAll_spec nodup' again
  have log_eq : (scene.commit record pages).log = some (journal.push record) := by
    rw [Scene.commit, retold.log_eq, Option.map_some]
  have told : ∀ block, (scene.commit record pages).image.pageAt block = scene.image.pageAt block ∧
      shadow'.pageAt block = shadow.pageAt block ∨
      ((scene.commit record pages).image.pageAt block).lsn = journal.position record ∧
      Echoes ((scene.commit record pages).image.pageAt block) (shadow'.pageAt block) := by
    intro block
    by_cases mem : block ∈ (changesOf index record).map PageChange.block
    · obtain ⟨change, here, rfl⟩ := List.mem_map.mp mem
      obtain ⟨page, before, page', inside, at_before, made, echoes⟩ := made change here
      have at_after := Scene.page?_commit_mem record page nodup inside at_before
      rw [Image.pageAt_of_page? at_after, Scene.stamp, retold.log_eq]
      rw [(redone.pages change here).2] at made
      rw [Option.some.inj made]
      exact .inr ⟨Page.lsn_setLsn _ _, echoes⟩
    · refine .inl ⟨?_, redone.others block mem⟩
      rw [Image.pageAt, Scene.page?_commit_other (retells.blocks ▸ mem), Image.pageAt]
  refine ⟨shadow', again, log_eq, ?_, ?_, fun block => ?_, fun block => ?_, ?_⟩
  · rw [Journal.push, redoLog_append, retold.redone, Option.bind_some, redoLog, again]
    rfl
  · rw [redone.size, Scene.size_commit]
    refine Nat.max_le.mpr ⟨retold.size_le, spanOf_le fun block mem => ?_⟩
    obtain ⟨change, here, rfl⟩ := List.mem_map.mp mem
    obtain ⟨-, before, -, -, at_before, -⟩ := made change here
    exact Image.lt_of_page? at_before
  · have lt := journal.stop_lt_push record
    have stamped := retold.stamped block
    rcases told block with ⟨same, -⟩ | ⟨lsn, -⟩
    · rw [same]
      omega
    · rw [lsn]
      exact Nat.le_of_eq (toNat_position room)
  · rcases told block with ⟨same, same'⟩ | ⟨-, echoes⟩
    · rw [same, same']
      exact retold.echoes block
    · exact echoes
  · intro entry mem
    rcases List.mem_append.mp mem with mem | mem
    · exact retold.apart entry mem
    · rw [List.mem_singleton.mp mem]
      exact nodup'

/-- A change of an index is told by its record. -/
theorem commit (retold : Retold index scene journal shadow) (sound : Sound scene.image contents)
    (change : Change mode scene contents record pages contents') (founded : Founded scene.image record)
    (room : (journal.push record).stop < 2 ^ 64) :
    ∃ shadow', redoAll (journal.position record) (changesOf index record) shadow = some shadow' ∧
      Retold index (scene.commit record pages) (journal.push record) shadow' := by
  refine retold.push sound.shape.small (change.nodup sound) (fun entry mem => ?_) (change.retells sound founded) room
  obtain ⟨before, at_before, -⟩ := change.before mem
  exact ⟨before, at_before⟩

/-- Replacing the page of one block, without a record, by one that has the same echo. -/
theorem put (retold : Retold index scene journal shadow) {block : BlockNumber} {page page' : Page}
    (at_block : scene.image.page? block = some page) (lsn : page'.lsn = page.lsn)
    (echoes : Echoes page (shadow.pageAt block) → Echoes page' (shadow.pageAt block)) :
    Retold index ⟨scene.image.put block page', scene.log⟩ journal shadow := by
  have inside := Image.lt_of_page? at_block
  have here := Image.pageAt_of_page? at_block
  refine ⟨retold.log_eq, retold.redone, ?_, fun other => ?_, fun other => ?_, retold.apart⟩
  · rw [Image.size_put]
    exact retold.size_le
  · by_cases eq : other = block
    · subst eq
      rw [Image.pageAt_put_same inside, lsn, ← here]
      exact retold.stamped other
    · rw [Image.pageAt_put_other eq]
      exact retold.stamped other
  · by_cases eq : other = block
    · subst eq
      rw [Image.pageAt_put_same inside]
      exact echoes (here ▸ retold.echoes other)
    · rw [Image.pageAt_put_other eq]
      exact retold.echoes other

/-- A page of zeros that was added has no record. -/
theorem grow (retold : Retold index scene journal shadow) :
    Retold index ⟨scene.image.push .zero, scene.log⟩ journal shadow := by
  refine ⟨retold.log_eq, retold.redone, ?_, fun block => ?_, fun block => ?_, retold.apart⟩
  · rw [Array.size_push]
    exact Nat.le_succ_of_le retold.size_le
  · rw [Image.pageAt_push_zero]
    exact retold.stamped block
  · rw [Image.pageAt_push_zero]
    exact retold.echoes block

/-- Neither has a page that was formatted. -/
theorem format (retold : Retold index scene journal shadow) {block : BlockNumber}
    (at_block : scene.image.page? block = some .zero) :
    Retold index ⟨scene.image.put block (freshPage regularType), scene.log⟩ journal shadow := by
  refine retold.put at_block ((lsn_freshPage _).trans Page.lsn_zero.symm) fun echoes => ?_
  refine .unlogged (lsn_freshPage _) (.inr ⟨regular_freshPage, itemAt_freshPage _⟩) ?_
  cases echoes with
  | unlogged _ _ zero => exact zero
  | logged stamped => exact absurd Page.lsn_zero stamped
  | flagged stamped => exact absurd Page.lsn_zero stamped

theorem flag (retold : Retold index scene journal shadow) {block : BlockNumber} {page : Page}
    (at_block : scene.image.page? block = some page) (regular : Regular page) :
    Retold index ⟨scene.image.put block (flagged page), scene.log⟩ journal shadow :=
  retold.put at_block (lsn_flagged _) fun echoes => echoes.flag regular

/-- A step commits a change or leaves alone what the log tells. -/
theorem advance (retold : Retold index scene journal shadow) (step : Advance mode scene after) :
    Retold index after journal shadow ∨ ∃ contents contents' record pages, Sound scene.image contents ∧
      Change mode scene contents record pages contents' ∧ after = scene.commit record pages := by
  cases step with
  | grow => exact .inl retold.grow
  | format _ at_block => exact .inl (retold.format at_block)
  | flag at_block regular => exact .inl (retold.flag at_block regular)
  | commit sound change => exact .inr ⟨_, _, _, _, sound, change, rfl⟩

/-- The log of a new index tells about its only page. -/
theorem created (index : String) (pagesPerRange : UInt32) (appendOnly : Bool) {journal : Journal}
    (empty : journal.records = []) (room : (journal.push (.createIndex pagesPerRange appendOnly)).stop < 2 ^ 64) :
    ∃ shadow, Retold index (.created pagesPerRange appendOnly (some journal))
      (journal.push (.createIndex pagesPerRange appendOnly)) shadow := by
  have zero : ∀ block, Image.pageAt #[.zero] block = .zero := fun block => Image.pageAt_push_zero #[] block
  have blank : Retold index ⟨#[.zero], some journal⟩ journal #[] := by
    refine ⟨rfl, by rw [empty]; rfl, Nat.zero_le _, fun block => ?_, fun block => ?_,
      by rw [empty]; exact fun _ mem => (nomatch mem)⟩
    · simp only [zero, Page.lsn_zero]
      exact Nat.zero_le _
    · simp only [zero]
      exact .unlogged Page.lsn_zero (.inl rfl) rfl
  have retells : Retells index #[.zero] (.createIndex pagesPerRange appendOnly)
      [(metaBlock, Metapage.initial pagesPerRange appendOnly)] := .cons ⟨rfl, remakes_new _ _ _⟩ .nil
  have present : ∀ entry ∈ [(metaBlock, Metapage.initial pagesPerRange appendOnly)],
      ∃ before, Image.page? #[.zero] entry.1 = some before := by
    intro entry mem
    exact ⟨.zero, by rw [List.mem_singleton.mp mem]; rfl⟩
  have nodup : ([(metaBlock, Metapage.initial pagesPerRange appendOnly)].map Prod.fst).Nodup :=
    List.nodup_singleton metaBlock
  obtain ⟨shadow, -, retold⟩ := blank.push (show (1 : Nat) < 2 ^ 32 by decide) nodup present retells room
  exact ⟨shadow, retold⟩

end Retold

/-- An operation that runs alone stores no tuple on a page that was never logged. -/
theorem Change.founded {scene : Scene} {contents contents' : Metapage} {record : Log.Record}
    {pages : List (BlockNumber × Page)} {journal : Journal}
    (change : Change .solo scene contents record pages contents')
    (log_eq : scene.log = some journal) (room : journal.stop < 2 ^ 64) : Founded scene.image record := by
  have logged : ∀ {block page fresh}, Site .solo scene block page fresh → fresh = false →
      (scene.image.pageAt block).lsn ≠ 0 := by
    intro block page fresh site old zero
    rw [Image.pageAt_of_page? site.at_block] at zero
    exact site.grounded rfl old ⟨journal, page, log_eq, room, site.at_block, .inl zero⟩
  intro block stores
  cases change with
  | extendPlain => cases stores
  | extendChain => cases stores
  | insert start decoded covered site =>
      obtain ⟨rfl, rfl⟩ := Prod.mk.inj (Option.some.inj stores)
      exact logged site rfl
  | update start decoded covered at_old regular removed deleted ne site =>
      obtain ⟨rfl, rfl⟩ := Prod.mk.inj (Option.some.inj stores)
      exact logged site rfl
  | desummarize => cases stores

/-! ## The index that the log tells about -/

theorem Image.page?_of_pageAt {image : Image} {block : BlockNumber} {page : Page} (h : image.pageAt block = page)
    (ne : page ≠ .zero) : image.page? block = some page := by
  cases at_block : image.page? block with
  | none =>
      rw [pageAt, at_block] at h
      exact absurd h.symm ne
  | some other =>
      rw [← h, pageAt_of_page? at_block]

/-- An entry does not tell a missing page from one of zeros. -/
theorem entryIn_pageAt (image : Image) (block : BlockNumber) (index : Nat) : entryIn image block index =
    if isMap (image.pageAt block) ∧ index < entriesPerPage ∧ (entryAt (image.pageAt block) index).isValid then
      some (entryAt (image.pageAt block) index)
    else none := by
  cases at_block : image.page? block with
  | none =>
      have zero : image.pageAt block = .zero := by rw [Image.pageAt, at_block, Option.getD_none]
      rw [entryIn_none at_block, zero, if_neg]
      rintro ⟨map, -⟩
      exact absurd (isMap_iff.mp map) (by simp [pageType, mapType])
  | some page => rw [entryIn_of_page at_block, Image.pageAt_of_page? at_block]

/-- A tuple does not tell a missing page from one of zeros. -/
theorem tupleAt_pageAt (image : Image) (place : ItemPointer) : tupleAt image place =
    if isRegular (image.pageAt place.block) then (image.pageAt place.block).itemAt place.offset.toNat else none := by
  cases at_block : image.page? place.block with
  | none =>
      have zero : image.pageAt place.block = .zero := by rw [Image.pageAt, at_block, Option.getD_none]
      rw [tupleAt_none at_block, zero, if_neg]
      intro regular
      exact absurd (isRegular_iff.mp regular) (by simp [pageType, regularType])
  | some page => rw [tupleAt_of_page at_block, Image.pageAt_of_page? at_block]

namespace Retold

variable {index : String} {scene : Scene} {journal : Journal} {shadow : Image}

/-- When the log knows all pages, the pages that it tells about are those of the index. -/
theorem shadow_eq (retold : Retold index scene journal shadow) (small : scene.image.size < 2 ^ 32)
    (room : journal.stop < 2 ^ 64) (clean : ∀ block, ¬ scene.Loose block) : shadow = scene.image := by
  have same : ∀ (block : BlockNumber) (page : Page), scene.image.page? block = some page →
      shadow.pageAt block = page ∧ page.lsn ≠ 0 := by
    intro block page at_block
    have known : ¬ (page.lsn = 0 ∨ isEvacuating page = true) := fun cause =>
      clean block ⟨journal, page, retold.log_eq, room, at_block, cause⟩
    rw [not_or] at known
    have echoes := retold.echoes block
    rw [Image.pageAt_of_page? at_block] at echoes
    exact ⟨echoes.eq_of_takes known.1 (Bool.eq_false_iff.mpr known.2), known.1⟩
  have size : shadow.size = scene.image.size := by
    refine Nat.le_antisymm retold.size_le (Nat.not_lt.mp fun shorter => ?_)
    -- the last page would be missing from the log
    have last : (UInt32.ofNat (scene.image.size - 1)).toNat = scene.image.size - 1 :=
      UInt32.toNat_ofNat_of_lt' (by simp only [UInt32.size]; omega)
    have inside : (UInt32.ofNat (scene.image.size - 1)).toNat < scene.image.size := by omega
    have missing : shadow.size ≤ (UInt32.ofNat (scene.image.size - 1)).toNat := by omega
    obtain ⟨page, at_last⟩ := Image.exists_page? inside
    obtain ⟨eq, stamped⟩ := same _ page at_last
    rw [Image.pageAt_of_size_le missing] at eq
    rw [← eq, Page.lsn_zero] at stamped
    exact stamped rfl
  refine Image.ext_pageAt (Nat.le_of_lt small) size fun block => ?_
  by_cases inside : block.toNat < scene.image.size
  · exact (same block _ (Image.page?_of_lt inside)).1
  · rw [Image.pageAt_of_size_le (Nat.not_lt.mp inside), Image.pageAt_of_size_le (size ▸ Nat.not_lt.mp inside)]

/-- The log tells about the same range map. -/
theorem sameMap {contents : Metapage} (retold : Retold index scene journal shadow)
    (shape : Geometry scene.image contents) :
    SameMap scene.image shadow where
  small := Nat.lt_of_le_of_lt retold.size_le shape.small
  metapage page at_meta := by
    have kind := (shape.metaType_of at_meta).1
    have ne : page ≠ .zero := by
      rintro rfl
      exact absurd kind (by simp [pageType, metaType])
    have echoes := retold.echoes metaBlock
    rw [Image.pageAt_of_page? at_meta] at echoes
    exact Image.page?_of_pageAt (echoes.eq_of_not_regular ne (by rw [kind]; decide)) ne
  kinds block page first at_block := by
    have echoes := retold.echoes block
    rw [Image.pageAt_of_page? at_block] at echoes
    cases echoes with
    | unlogged _ _ zero => exact .inl zero
    | logged stamped same =>
        refine shape.kinds block page first (Image.page?_of_pageAt same.symm ?_)
        rintro rfl
        rw [← same] at stamped
        exact stamped Page.lsn_zero
    | flagged _ regular _ => exact .inr (.inl regular)
  maps block page at_block map := by
    have echoes := retold.echoes block
    rw [Image.pageAt_of_page? at_block] at echoes
    exact ⟨page, Image.page?_of_pageAt (echoes.eq_of_map map) map.ne_zero, map, rfl, rfl⟩
  back block page at_block map := by
    have ne := map.ne_zero
    have echoes := retold.echoes block
    rw [Image.pageAt_of_page? at_block] at echoes
    cases echoes with
    | unlogged _ _ zero => exact absurd zero ne
    | logged _ same => exact ⟨page, Image.page?_of_pageAt same.symm ne, map⟩
    | flagged _ regular _ => exact absurd map regular.not_map

/-- The log tells about the same entries and the same tuples. -/
theorem view_extends {contents : Metapage} (retold : Retold index scene journal shadow)
    (shape : Geometry scene.image contents) : (scene.image.view contents).Extends (shadow.view contents) where
  addressing_eq := rfl
  covers _ _ covered := (retold.sameMap shape).covers.mpr covered
  entry_eq block index := by
    change entryIn shadow block index = entryIn scene.image block index
    rw [entryIn_pageAt, entryIn_pageAt]
    rcases (retold.echoes block).alike with same | ⟨unmapped, unmapped', -⟩
    · rw [same]
    · rw [unmapped, unmapped', if_neg, if_neg] <;> simp
  tuple_eq place := by
    change tupleAt shadow place = tupleAt scene.image place
    rw [tupleAt_pageAt, tupleAt_pageAt]
    rcases (retold.echoes place.block).alike with same | ⟨-, -, items⟩
    · rw [same]
    · exact items _

/-- The index that the log tells about is sound and has the same bindings. -/
theorem sound (retold : Retold index scene journal shadow) (sound : Sound scene.image scene.image.contents) :
    Sound shadow shadow.contents ∧ ∀ heapBlock payload, Binds shadow shadow.contents heapBlock payload ↔
      Binds scene.image scene.image.contents heapBlock payload := by
  have shape := (retold.sameMap sound.shape).geometry sound.shape
  rw [Image.contents_eq shape.metapage]
  exact ⟨⟨shape, (retold.view_extends sound.shape).linked sound.linked⟩, fun _ _ =>
    (retold.view_extends sound.shape).binds sound.linked⟩

end Retold

end RangeIndex

end Warehouse
