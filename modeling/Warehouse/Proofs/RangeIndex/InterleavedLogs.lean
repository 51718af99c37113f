import Warehouse.Proofs.RangeIndex.CrashRecovery
import Warehouse.Proofs.RangeIndex.Interleavings

/-! # Logs of operations at the same time

An insert formats a new page before it knows whether it will use it, and does not log that. When
another operation overtakes it, the formatted page stays behind, and the next record that stores
a tuple on it does not say that the page is new. `Log.firstStray` looks for such a record, and
`replay_interleaved` says that it decides: a log without one brings the index back, and recovery of
any other log stops at the first one. -/

namespace Warehouse

/-! ## Tuples on pages that no record initialised -/

namespace Log

/-- The block of the page that the record initialises for its tuple. -/
def Record.opens (record : Record) : List BlockNumber :=
  match record.stores with
  | some (block, true) => [block]
  | _ => []

/-- The block of the page on which the record stores its tuple, if the record does not initialise
the page and the page is not among those that were. -/
def Record.strays (record : Record) (opened : List BlockNumber) : Option BlockNumber :=
  match record.stores with
  | some (block, false) => if block ∈ opened then none else some block
  | _ => none

/-- The blocks of the pages that records initialise for their tuples. -/
def opened (records : List (Lsn × Record)) : List BlockNumber :=
  records.flatMap fun entry => entry.2.opens

/-- The block of the first page on which a record stores its tuple before any record has initialised
the page. -/
def firstStray (opened : List BlockNumber) : List (Lsn × Record) → Option BlockNumber
  | [] => none
  | (_, record) :: records => (record.strays opened).or (firstStray (opened ++ record.opens) records)

theorem firstStray_append (known : List BlockNumber) (front back : List (Lsn × Record)) :
    firstStray known (front ++ back) = (firstStray known front).or (firstStray (known ++ opened front) back) := by
  induction front generalizing known with
  | nil => rw [List.nil_append, firstStray, Option.none_or, opened, List.flatMap_nil, List.append_nil]
  | cons entry front ih =>
      obtain ⟨lsn, record⟩ := entry
      have step : opened ((lsn, record) :: front) = record.opens ++ opened front := List.flatMap_cons
      rw [List.cons_append, firstStray, firstStray, ih, Option.or_assoc, step, List.append_assoc]

/-- One more record matters only when there was no stray before. -/
theorem firstStray_append_singleton (records : List (Lsn × Record)) (entry : Lsn × Record) :
    firstStray [] (records ++ [entry]) = (firstStray [] records).or (entry.2.strays (opened records)) := by
  rw [firstStray_append, List.nil_append, firstStray, firstStray, Option.or_none]

theorem mem_opened_append_singleton {records : List (Lsn × Record)} {entry : Lsn × Record} {block : BlockNumber} :
    block ∈ opened (records ++ [entry]) ↔ block ∈ opened records ∨ entry.2.stores = some (block, true) := by
  have opens : block ∈ entry.2.opens ↔ entry.2.stores = some (block, true) := by
    rw [Record.opens]
    split
    · rename_i other eq
      rw [List.mem_singleton, eq, Option.some.injEq, Prod.mk.injEq, and_iff_left rfl, eq_comm]
    · rename_i other
      exact ⟨fun mem => absurd mem List.not_mem_nil, fun eq => absurd eq (other block)⟩
  rw [opened, List.flatMap_append, List.mem_append, List.flatMap_singleton, opens, opened]

theorem Record.strays_eq_none_iff {record : Record} {opened : List BlockNumber} :
    record.strays opened = none ↔ ∀ block, record.stores = some (block, false) → block ∈ opened := by
  rw [strays]
  split
  · rename_i block eq
    rw [eq]
    simp
  · rename_i other
    exact ⟨fun _ block eq => absurd eq (other block), fun _ => rfl⟩

theorem Record.strays_eq_some_iff {record : Record} {opened : List BlockNumber} {block : BlockNumber} :
    record.strays opened = some block ↔ record.stores = some (block, false) ∧ block ∉ opened := by
  rw [strays]
  split
  · rename_i other eq
    rw [eq]
    by_cases mem : other ∈ opened
    · rw [if_pos mem]
      simp only [reduceCtorEq, Option.some.injEq, Prod.mk.injEq, and_true, false_iff, not_and, not_not]
      rintro rfl
      exact mem
    · rw [if_neg mem]
      simp only [Option.some.injEq, Prod.mk.injEq, and_true, iff_self_and]
      rintro rfl
      exact mem
  · rename_i other
    exact ⟨nofun, fun ⟨eq, _⟩ => absurd eq (other block)⟩

end Log

namespace RangeIndex

open Recovery

/-! ## Pages that the log accounts for -/

section Pages

variable {mode : Mode} {index : String} {scene after : Scene} {journal later : Journal} {shadow : Image}
  {contents contents' : Metapage} {record : Log.Record} {pages : List (BlockNumber × Page)} {block : BlockNumber}
  {page : Page}

/-- The page on which a change stores its tuple. -/
theorem Change.exists_site (change : Change mode scene contents record pages contents') {fresh : Bool}
    (stores : record.stores = some (block, fresh)) :
    ∃ page page', Site mode scene block page fresh ∧ (block, page') ∈ pages := by
  cases change with
  | extendPlain => cases stores
  | extendChain => cases stores
  | insert start decoded covered site =>
      obtain ⟨rfl, rfl⟩ := Prod.mk.inj (Option.some.inj stores)
      exact ⟨_, _, site, List.mem_cons_self⟩
  | update start decoded covered at_old regular removed deleted ne site =>
      obtain ⟨rfl, rfl⟩ := Prod.mk.inj (Option.some.inj stores)
      exact ⟨_, _, site, List.mem_cons_of_mem _ List.mem_cons_self⟩
  | desummarize => cases stores

/-- A change makes no page regular: it was so before, and had an item, or it gets the tuple. -/
theorem Change.regular_before (sound : Sound scene.image contents)
    (change : Change mode scene contents record pages contents') (mem : (block, page) ∈ pages)
    (regular : Regular (scene.stamp record page)) : (∃ fresh, record.stores = some (block, fresh)) ∨
      ∃ before offset bytes, scene.image.page? block = some before ∧ Regular before ∧
        before.itemAt offset = some bytes := by
  have shape := sound.shape
  have no_map : ¬ MapPage page := fun map => regular.not_map (scene.map_stamp record map).1
  have no_meta : ∀ {contents : Metapage} {metapage : Page}, scene.image.page? metaBlock = some metapage →
      contents.magic = metaMagic → page ≠ contents.write metapage := by
    rintro contents metapage at_meta magic rfl
    have holds := holds_stamp_write scene record contents (shape.metaType_of at_meta).1 magic
    exact absurd ((Metapage.holds_iff.mp holds).1.symm.trans regular.kind) (by decide)
  have no_entry : ∀ {heapBlock mapBlock : BlockNumber} {mapPage : Page} {place : ItemPointer},
      Covers scene.image contents heapBlock mapBlock → scene.image.page? mapBlock = some mapPage →
      page ≠ withEntry mapPage (contents.addressing.slot heapBlock) place := by
    rintro heapBlock mapBlock mapPage place covered at_map rfl
    exact no_map (map_withEntry (mapPage_of_covers shape covered at_map)
      (contents.addressing.slot_lt heapBlock) place).1
  cases change with
  | extendPlain plain next at_target free at_meta =>
      rcases List.mem_pair.mp mem with eq | eq <;> obtain ⟨rfl, rfl⟩ := Prod.mk.inj eq
      · exact absurd rfl (no_meta at_meta shape.magic)
      · exact absurd mapPage_freshPage no_map
  | extendChain chained bound beyond dense free at_meta tail =>
      rcases List.mem_append.mp mem with front | link
      · rcases List.mem_pair.mp front with eq | eq <;> obtain ⟨rfl, rfl⟩ := Prod.mk.inj eq
        · exact absurd rfl (no_meta at_meta shape.magic)
        · exact absurd (map_setLogicalPage _).1 no_map
      · cases tail with
        | none => exact absurd link List.not_mem_nil
        | some at_last =>
            obtain ⟨rfl, rfl⟩ := Prod.mk.inj (List.mem_singleton.mp link)
            exact absurd (map_setNextMapPage (shape.tail_page chained bound at_last).1 _).1 no_map
  | insert start decoded covered site added stored valid at_map unbound =>
      rcases List.mem_pair.mp mem with eq | eq <;> obtain ⟨rfl, rfl⟩ := Prod.mk.inj eq
      · exact .inl ⟨_, rfl⟩
      · exact absurd rfl (no_entry covered at_map)
  | update start decoded covered at_old regular_old removed deleted ne site added stored valid at_map bound valid_old =>
      rcases List.mem_cons.mp mem with eq | mem
      · obtain ⟨rfl, rfl⟩ := Prod.mk.inj eq
        obtain ⟨bytes, item⟩ := sound.item_of_entry covered at_map bound valid_old at_old regular_old
        exact .inr ⟨_, _, bytes, at_old, regular_old, item⟩
      · rcases List.mem_pair.mp mem with eq | eq <;> obtain ⟨rfl, rfl⟩ := Prod.mk.inj eq
        · exact .inl ⟨_, rfl⟩
        · exact absurd rfl (no_entry covered at_map)
  | desummarize start covered at_place regular_old removed deleted at_map bound valid =>
      rcases List.mem_pair.mp mem with eq | eq <;> obtain ⟨rfl, rfl⟩ := Prod.mk.inj eq
      · exact absurd rfl (no_entry covered at_map)
      · obtain ⟨bytes, item⟩ := sound.item_of_entry covered at_map bound valid at_place regular_old
        exact .inr ⟨_, _, bytes, at_place, regular_old, item⟩

/-- A regular page with an item was logged. -/
theorem Retold.stamped_of_item (retold : Retold index scene journal shadow) {offset : Nat} {bytes : List UInt8}
    (at_block : scene.image.page? block = some page) (regular : Regular page)
    (item : page.itemAt offset = some bytes) : page.lsn ≠ 0 := by
  have echoes := retold.echoes block
  rw [Image.pageAt_of_page? at_block] at echoes
  cases echoes with
  | unlogged _ blank _ =>
      rcases blank with zero | ⟨-, empty⟩
      · exact absurd zero regular.ne_zero
      · rw [empty] at item
        cases item
  | logged stamped => exact stamped
  | flagged stamped => exact stamped

/-- The regular pages that were logged are those that records of the log have initialised. -/
structure Opened (scene : Scene) (journal : Journal) : Prop where
  of_stamped : ∀ block page, scene.image.page? block = some page → Regular page → page.lsn ≠ 0 →
    block ∈ Log.opened journal.records
  stamped : ∀ block, block ∈ Log.opened journal.records → (scene.image.pageAt block).lsn ≠ 0

namespace Opened

/-- Replacing a page, without a record, by a regular one with the same log position. -/
theorem put {page' : Page} (opened : Opened scene journal) (at_block : scene.image.page? block = some page)
    (lsn : page'.lsn = page.lsn) (regular : page.lsn ≠ 0 → Regular page) :
    Opened ⟨scene.image.put block page', scene.log⟩ journal where
  of_stamped other after at_other regular' stamped := by
    by_cases eq : other = block
    · subst eq
      obtain rfl := Option.some.inj ((Image.page?_put_same page' at_block).symm.trans at_other)
      rw [lsn] at stamped
      exact opened.of_stamped other page at_block (regular stamped) stamped
    · rw [Image.page?_put_other eq] at at_other
      exact opened.of_stamped other after at_other regular' stamped
  stamped other mem := by
    have stamped := opened.stamped other mem
    by_cases eq : other = block
    · subst eq
      rwa [Image.pageAt_put_same (Image.lt_of_page? at_block), lsn, ← Image.pageAt_of_page? at_block]
    · rwa [Image.pageAt_put_other eq]

theorem grow (opened : Opened scene journal) : Opened ⟨scene.image.push .zero, scene.log⟩ journal where
  of_stamped block page at_block regular stamped := by
    have same := Image.pageAt_push_zero scene.image block
    rw [Image.pageAt_of_page? at_block] at same
    exact opened.of_stamped block page (Image.page?_of_pageAt same.symm regular.ne_zero) regular stamped
  stamped block mem := by
    rw [Image.pageAt_push_zero]
    exact opened.stamped block mem

theorem format (opened : Opened scene journal) (at_block : scene.image.page? block = some .zero) :
    Opened ⟨scene.image.put block (freshPage regularType), scene.log⟩ journal :=
  opened.put at_block ((lsn_freshPage _).trans Page.lsn_zero.symm) fun stamped => absurd Page.lsn_zero stamped

/-- A record that stores no tuple astray keeps the account. -/
theorem commit (opened : Opened scene journal) (retold : Retold index scene journal shadow)
    (sound : Sound scene.image contents) (change : Change mode scene contents record pages contents')
    (founded : Founded scene.image record) (room : (journal.push record).stop < 2 ^ 64) :
    Opened (scene.commit record pages) (journal.push record) := by
  have nodup := change.nodup sound
  have known : ∀ block, block ∈ Log.opened journal.records → block ∈ Log.opened (journal.push record).records :=
    fun block mem => Log.mem_opened_append_singleton.mpr (.inl mem)
  refine ⟨fun block page at_block regular stamped => ?_, fun block mem => ?_⟩
  · by_cases mem : block ∈ pages.map Prod.fst
    · obtain ⟨⟨block, page'⟩, entry, rfl⟩ := List.mem_map.mp mem
      obtain ⟨_, at_before, -⟩ := change.before entry
      obtain rfl := Option.some.inj ((Scene.page?_commit_mem record page' nodup entry at_before).symm.trans at_block)
      rcases change.regular_before sound entry regular with ⟨fresh, stores⟩ | ⟨before, _, _, at_before, regular, item⟩
      · cases fresh with
        | true => exact Log.mem_opened_append_singleton.mpr (.inr stores)
        | false =>
            obtain ⟨before, -, site, -⟩ := change.exists_site stores
            have stamped := founded block stores
            rw [Image.pageAt_of_page? site.at_block] at stamped
            exact known block (opened.of_stamped block before site.at_block site.regular stamped)
      · exact known block (opened.of_stamped block before at_before regular
            (retold.stamped_of_item at_before regular item))
    · rw [Scene.page?_commit_other mem] at at_block
      exact known block (opened.of_stamped block page at_block regular stamped)
  · by_cases changed : block ∈ pages.map Prod.fst
    · obtain ⟨⟨block, page⟩, entry, rfl⟩ := List.mem_map.mp changed
      obtain ⟨_, at_before, -⟩ := change.before entry
      rw [Image.pageAt_of_page? (Scene.page?_commit_mem record page nodup entry at_before), Scene.stamp, retold.log_eq]
      simp only [Page.lsn_setLsn]
      exact Journal.position_ne_zero room
    · rcases Log.mem_opened_append_singleton.mp mem with old | new
      · rw [Image.pageAt, Scene.page?_commit_other changed]
        exact opened.stamped block old
      · obtain ⟨_, page, -, entry⟩ := change.exists_site new
        exact absurd (List.mem_map.mpr ⟨_, entry, rfl⟩) changed

end Opened

/-! ## Where recovery stops -/

/-- Making the record again goes well up to the tuple, which is to be stored on a page of zeros. -/
def Halts (index : String) (lsn : Lsn) (record : Log.Record) (shadow : Image) (block : BlockNumber) : Prop :=
  block ≠ invalidBlock ∧ lsn ≠ 0 ∧ ∃ front tuple offset back middle,
    changesOf index record = front ++ ⟨block, addTuple block tuple offset false⟩ :: back ∧
      redoAll lsn front shadow = some middle ∧ middle.pageAt block = .zero

/-- Making the log again goes well up to a tuple for a page of zeros. -/
def HaltsAt (index : String) (records : List (Lsn × Log.Record)) (block : BlockNumber) : Prop :=
  ∃ front lsn record back shadow, records = front ++ (lsn, record) :: back ∧
    redoLog index front #[] = some shadow ∧ Halts index lsn record shadow block

theorem HaltsAt.append {records : List (Lsn × Log.Record)} (halts : HaltsAt index records block)
    (rest : List (Lsn × Log.Record)) : HaltsAt index (records ++ rest) block := by
  obtain ⟨front, lsn, record, back, shadow, rfl, redone, halts⟩ := halts
  exact ⟨front, lsn, record, back ++ rest, shadow, by rw [List.append_assoc, List.cons_append], redone, halts⟩

/-- A tuple that is stored on a page that was never logged cannot be stored again. -/
theorem Retold.halts (retold : Retold index scene journal shadow) (sound : Sound scene.image contents)
    (change : Change mode scene contents record pages contents') (room : (journal.push record).stop < 2 ^ 64)
    (stores : record.stores = some (block, false)) (unstamped : (scene.image.pageAt block).lsn = 0) :
    Halts index (journal.position record) record shadow block := by
  have zero : shadow.pageAt block = .zero := by
    cases retold.echoes block with
    | unlogged _ _ zero => exact zero
    | logged stamped => exact absurd unstamped stamped
    | flagged stamped => exact absurd unstamped stamped
  obtain ⟨page, -, site, -⟩ := change.exists_site stores
  refine ⟨Image.ne_invalid sound.shape.small site.at_block, Journal.position_ne_zero room, ?_⟩
  cases change with
  | extendPlain => cases stores
  | extendChain => cases stores
  | desummarize => cases stores
  | insert =>
      obtain ⟨rfl, rfl⟩ := Prod.mk.inj (Option.some.inj stores)
      exact ⟨[], _, _, _, shadow, rfl, rfl, zero⟩
  | @update heapBlock mapBlock old new tuple payload fresh oldPage oldPage' page page' mapPage
      start decoded covered at_old
      regular removed deleted ne site added stored valid at_map bound valid_old =>
      obtain ⟨rfl, rfl⟩ := Prod.mk.inj (Option.some.inj stores)
      have item := sound.item_of_entry covered at_map bound valid_old at_old regular
      have echoes := retold.echoes old.block
      rw [Image.pageAt_of_page? at_old] at echoes
      have remakes : Remakes ⟨old.block, deleteAt old.offset⟩ _ _ := remakes_deleteAt regular item removed
      obtain ⟨after, made, -⟩ := remakes.echoes echoes (retold.older room old.block)
      have nodup : ([PageChange.mk old.block (deleteAt old.offset)].map PageChange.block).Nodup :=
        List.nodup_singleton old.block
      obtain ⟨middle, redone⟩ := exists_redoAll nodup fun change mem => by
        obtain rfl := List.mem_singleton.mp mem
        exact ⟨Image.ne_invalid sound.shape.small at_old, after, made⟩
      refine ⟨[⟨old.block, deleteAt old.offset⟩], tuple, new.offset,
          [redirect mapBlock contents.addressing heapBlock new],
        middle, ?_, redone, ?_⟩
      · rw [changesOf, if_neg ne]
        rfl
      · rw [(redoAll_spec nodup redone).others new.block (fun mem => ne (List.mem_singleton.mp mem).symm), zero]

/-! ## Making the log again -/

/-- What making the log again comes to, with or without a stray tuple. -/
def Remade (index : String) (scene : Scene) (journal : Journal) : Option BlockNumber → Prop
  | none => ∃ shadow, Retold index scene journal shadow ∧ Opened scene journal
  | some block => HaltsAt index journal.records block

/-- Every step keeps up what making the log again comes to. -/
theorem Remade.advance (remade : Remade index scene journal (Log.firstStray [] journal.records))
    (log_eq : scene.log = some journal) (step : Advance mode scene after) (log_eq' : after.log = some later)
    (room : later.stop < 2 ^ 64) : Remade index after later (Log.firstStray [] later.records) := by
  cases stray : Log.firstStray [] journal.records with
  | some block =>
      rw [stray] at remade
      obtain ⟨rest, eq⟩ := (step.precedes log_eq log_eq').1.records
      rw [← eq, Log.firstStray_append, stray, Option.some_or]
      rw [Remade, ← eq]
      exact HaltsAt.append remade rest
  | none =>
      rw [stray] at remade
      obtain ⟨shadow, retold, opened⟩ := remade
      have silent : after.log = scene.log → Retold index after journal shadow → Opened after journal →
          Remade index after later (Log.firstStray [] later.records) := by
        intro same retold opened
        obtain rfl := Option.some.inj ((log_eq.symm.trans same.symm).trans log_eq')
        rw [stray]
        exact ⟨shadow, retold, opened⟩
      cases step with
      | grow => exact silent rfl retold.grow opened.grow
      | format _ at_block => exact silent rfl (retold.format at_block) (opened.format at_block)
      | flag at_block regular =>
          exact silent rfl (retold.flag at_block regular) (opened.put at_block (lsn_flagged _) fun _ => regular)
      | @commit contents contents' record pages sound change =>
          obtain rfl : journal.push record = later := by
            rw [Scene.commit, log_eq] at log_eq'
            exact Option.some.inj log_eq'
          rw [Journal.push, Log.firstStray_append_singleton, stray, Option.none_or, ← Journal.push]
          cases strays : record.strays (Log.opened journal.records) with
          | none =>
              have founded : Founded scene.image record := fun block stores =>
                opened.stamped block (Log.Record.strays_eq_none_iff.mp strays block stores)
              obtain ⟨shadow', -, retold'⟩ := retold.commit sound change founded room
              exact ⟨shadow', retold', opened.commit retold sound change founded room⟩
          | some block =>
              obtain ⟨stores, unopened⟩ := Log.Record.strays_eq_some_iff.mp strays
              obtain ⟨page, -, site, -⟩ := change.exists_site stores
              have unstamped : page.lsn = 0 := by
                by_contra stamped
                exact unopened (opened.of_stamped block page site.at_block site.regular stamped)
              rw [← Image.pageAt_of_page? site.at_block] at unstamped
              exact ⟨journal.records, _, record, [], shadow, rfl, retold.redone,
                retold.halts sound change room stores unstamped⟩

theorem Remade.evolves (remade : Remade index scene journal (Log.firstStray [] journal.records))
    (log_eq : scene.log = some journal) (evolves : Evolves mode scene after) (log_eq' : after.log = some later)
    (room : later.stop < 2 ^ 64) : Remade index after later (Log.firstStray [] later.records) := by
  induction evolves generalizing later with
  | refl =>
      obtain rfl := Option.some.inj (log_eq.symm.trans log_eq')
      exact remade
  | tail evolves step ih =>
      obtain ⟨before, log_before, -, -⟩ := exists_later_log (fun _ _ => id) evolves log_eq
      have room' := Nat.lt_of_le_of_lt (step.precedes log_before log_eq').1.stop_le room
      exact (ih log_before room').advance log_before step log_eq' room

theorem addTuple_zero (block : BlockNumber) (tuple : List UInt8) (offset : OffsetNumber) :
    addTuple block tuple offset false .zero =
      (.error (Error.log s!"failed to add BRIN tuple at ({block.toNat}, {offset.toNat})"), .zero) := by
  simp only [addTuple, Bool.false_eq_true, if_false, Page.addItem, Page.isNew_zero, if_true]
  rfl

/-- Recovery reports the tuple for a page of zeros. -/
theorem HaltsAt.replay_eq {relation : Relation} {records : List (Lsn × Log.Record)}
    (halts : HaltsAt relation.name records block) (alone : relation.interference = .none)
    (blank : pagesOf relation = #[]) : ∃ offset : OffsetNumber, (replay relation records).1 =
      .error (Error.log s!"failed to add BRIN tuple at ({block.toNat}, {offset.toNat})") := by
  obtain ⟨front, lsn, record, back, shadow, rfl, redone, valid, positive, front', tuple, offset, back', middle, split,
    redone', zero⟩ := halts
  have empty : relation.buffers.size < 2 ^ 32 := by
    rw [← size_pagesOf, blank]
    decide
  have first : Yields relation (replay relation front) (some shadow) := by
    rw [← redone, ← blank]
    exact replay_spec alone empty
  obtain ⟨after, replayed, rfl, alone', name⟩ := first.exists_after
  have small : after.buffers.size < 2 ^ 32 := by
    rw [← size_pagesOf]
    exact size_lt_of_redoLog (by decide) redone
  have second : Yields after (applyAll after lsn front') (some middle) := by
    rw [← redone']
    exact applyAll_spec alone' small
  obtain ⟨last, applied, rfl, alone'', -⟩ := second.exists_after
  have small' : last.buffers.size < 2 ^ 32 := by
    rw [← size_pagesOf]
    exact size_lt_of_redoAll (by rwa [size_pagesOf]) redone'
  have older : ¬ lsn ≤ ((pagesOf last).pageAt block).lsn := by
    rw [zero, Page.lsn_zero]
    exact fun le => positive (UInt64.le_zero_iff.mp le)
  have refused : (applyAt last lsn ⟨block, addTuple block tuple offset false⟩).1 =
      .error (Error.log s!"failed to add BRIN tuple at ({block.toNat}, {offset.toNat})") :=
    applyAt_refused alone'' small' valid older (by simp only [zero, addTuple_zero])
  refine ⟨offset, ?_⟩
  rw [replay_append, replayed, goOn, replay_cons, name, split, applyAll_append, applied, goOn, applyAll_cons]
  exact goOn_error (goOn_error refused _) _

end Pages

theorem Opened.created (pagesPerRange : UInt32) (appendOnly : Bool) {journal : Journal} (empty : journal.records = []) :
    Opened (.created pagesPerRange appendOnly (some journal))
      (journal.push (.createIndex pagesPerRange appendOnly)) where
  of_stamped block page at_block regular _ := by
    obtain rfl := block_created at_block
    rw [page?_created] at at_block
    obtain rfl := Option.some.inj at_block
    exact absurd ((Metapage.holds_iff.mp holds_created).1.symm.trans regular.kind) (by decide)
  stamped block mem := by
    rw [Journal.push, empty] at mem
    exact absurd mem List.not_mem_nil

/-- The index of an interplay. -/
def Interplay.service (state : Interplay) : Service := ⟨state.relation, state.logFile, []⟩

/-- What operations at the same time have logged can be read, and making it again comes to what
the first stray tuple decides. -/
theorem Chronicle.interleaved {index : String} {service : Service} {scene : Scene} {journal : Journal}
    {events : List Event} {state : Interplay} (chronicle : Chronicle index service scene journal)
    (opened : Opened scene journal) (settled : Log.firstStray [] journal.records = none)
    (run : Interplay.Run (.ofService service) events state) (small : state.size < 2 ^ 32)
    (room : state.service.logBytes.length < 2 ^ 64) :
    ∃ scene' later, pagesOf state.relation = scene'.image ∧ Sound scene'.image scene'.image.contents ∧
      state.service.logRecords = .ok later.records ∧ Remade index scene' later (Log.firstStray [] later.records) := by
  obtain ⟨addressing, ledger, sane⟩ := chronicle.sane
  obtain ⟨scene', orderly, evolves, -⟩ := sane.orderly.run run small
  obtain ⟨later, log_eq, precedes, readable⟩ := exists_later_log (fun _ _ => id) evolves chronicle.retold.log_eq
  have shows : Shows state.service.relation state.service.logFile scene' := orderly.shows
  rw [shows.length_logBytes log_eq] at room
  have remade : Remade index scene journal (Log.firstStray [] journal.records) := by
    rw [settled]
    exact ⟨_, chronicle.retold, opened⟩
  exact ⟨scene', later, shows.pages, orderly.sound,
    shows.logRecords_eq log_eq (precedes.start_eq.trans chronicle.start) (readable chronicle.readable),
    remade.evolves chronicle.retold.log_eq evolves log_eq room⟩

/-- Recovery of the log of operations at the same time. Take an index that is created in a new
relation with a new log, and any run of any users in which operations interrupt each other wherever
they hold no lock. When every record initialises the page of its tuple, or an earlier one did,
recovery of the log in a relation without pages succeeds, and ends with a sound index that binds
what the other one binds. Otherwise it fails at the first tuple for a page that nobody has initialised. -/
theorem replay_interleaved {writer : Log.Writer} {file : ByteArray} {pagesPerRange : UInt32} (name : String)
    (appendOnly : Bool) (bounds : 1 ≤ pagesPerRange.toNat ∧ pagesPerRange.toNat ≤ maxPagesPerRange)
    (fresh : writer.Fresh file) :
    ∃ service, Service.create (.empty name (some writer)) file pagesPerRange appendOnly = .ok service ∧
      ∀ events state, Interplay.Run (.ofService service) events state → state.size < 2 ^ 32 →
        state.service.logBytes.length < 2 ^ 64 →
        ∃ records, state.service.logRecords = .ok records ∧ ∀ copy : String,
          match Log.firstStray [] records with
          | none => ∃ after, replay (.empty copy none) records = (.ok (), after) ∧
              Sound (pagesOf after) (pagesOf after).contents ∧
              ∀ heapBlock payload, Binds (pagesOf after) (pagesOf after).contents heapBlock payload ↔
                state.service.Binds heapBlock payload
          | some block => ∃ offset : OffsetNumber, (replay (.empty copy none) records).1 =
              .error (Error.log s!"failed to add BRIN tuple at ({block.toNat}, {offset.toNat})") := by
  obtain ⟨service, created, chronicle⟩ := exists_chronicle_created name appendOnly bounds fresh
  refine ⟨service, created, fun events state run small room => ?_⟩
  have opened : Opened _ _ := .created pagesPerRange appendOnly (show (Journal.ofWriter writer).records = [] from rfl)
  have settled : Log.firstStray [] ((Journal.ofWriter writer).push (.createIndex pagesPerRange appendOnly)).records =
    none := rfl
  obtain ⟨_, later, -, -, told, -⟩ := (chronicle name).interleaved opened settled run small room
  refine ⟨later.records, told, fun copy => ?_⟩
  obtain ⟨scene, later', pages, sound, told', remade⟩ := (chronicle copy).interleaved opened settled run small room
  rw [Except.ok.inj (told.symm.trans told')]
  cases stray : Log.firstStray [] later'.records with
  | none =>
      rw [stray] at remade
      obtain ⟨shadow, retold, -⟩ := remade
      obtain ⟨after, replayed, sound', binds⟩ := retold.exists_replay sound
      refine ⟨after, replayed, sound', fun heapBlock payload => ?_⟩
      rw [Service.Binds, Interplay.service, pages]
      exact binds heapBlock payload
  | some block =>
      rw [stray] at remade
      exact HaltsAt.replay_eq remade (rfl : (Relation.empty copy none).interference = .none) Array.map_empty

/-- A summary is moved to page 3, which another insert has formatted and left behind. -/
example : Log.firstStray [] [(11, .createIndex 1 false), (24, .extendMap 1 false 0 0 invalidBlock),
    (40, .insert 0 1 false 1 2 1 [0, 0, 0, 0, 66] true), (60, .update 0 1 false 1 2 1 3 1 [0, 0, 0, 0, 65] false)] =
    some 3 := rfl

end RangeIndex

end Warehouse
