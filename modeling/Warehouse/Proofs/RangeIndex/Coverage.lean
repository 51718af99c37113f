import Warehouse.Proofs.RangeIndex.Placement

/-! # Extending the range map until it covers a block

Alone, every round of extending the range map of a plain table brings the accessor up to date,
empties the page that the range map grows into, or adds that page to the range map, so that the
number of rounds is bounded. Every round of extending a chain brings the accessor up to date or
adds the next page. No binding changes on the way, and no page is left that the log does not
know about. -/

namespace Warehouse.RangeIndex

/-- The block does not exist, or its page has summaries. -/
def Image.Unready (image : Image) (block : Nat) : Prop :=
  image.size ≤ block ∨
    ∃ page offset bytes, image[block]? = some page ∧ isRegular page = true ∧ page.itemAt offset = some bytes

/-- So many rounds are enough to extend the range map of a plain table up to a page. -/
def Moment.Costs (moment : Moment) (target : BlockNumber) (rounds : Nat) : Prop :=
  ∃ stale unready, (moment.accessor.lastMapPage ≠ moment.contents.lastMapPage → 1 ≤ stale) ∧
    (moment.scene.image.Unready (moment.contents.lastMapPage.toNat + 1) → 1 ≤ unready) ∧
    2 * (target.toNat - moment.contents.lastMapPage.toNat) + stale + unready ≤ rounds

/-- What one attempt to extend the range map of a plain table comes to. -/
def Growth.Extends (growth : Growth) (before after : Metapage) : Prop :=
  match growth with
  | .extended block => after.lastMapPage = block ∧ block.toNat = before.lastMapPage.toNat + 1
  | .retry => after.lastMapPage = before.lastMapPage

/-- Only the page is loose that the range map grows into next, on the way to a target. -/
def Moment.Growing (moment : Moment) (target : BlockNumber) : Prop :=
  ∀ block, moment.scene.Loose block →
    block.toNat = moment.contents.lastMapPage.toNat + 1 ∧ moment.contents.lastMapPage < target

section Plain

variable {mode : Mode} {moment : Moment} {image : Image} {contents : Metapage} {block : BlockNumber} {page : Page}

/-- The block after the last range map page is within the relation or right behind it. -/
theorem Geometry.last_lt (shape : Geometry image contents) (plain : contents.appendOnly = false) :
    contents.lastMapPage.toNat < image.size := by
  by_cases first : contents.lastMapPage = metaBlock
  · obtain ⟨metapage, at_meta, -⟩ := shape.metapage
    rw [first]
    exact Image.lt_of_page? at_meta
  · obtain ⟨page, at', -⟩ := (shape.plain plain _).mpr ⟨first, UInt32.le_refl _⟩
    exact Image.lt_of_page? at'

/-- A plain index that binds a range has the page with its entry, and a page with items behind the range map. -/
theorem Sound.reach_of_binds (sound : Sound image contents) (plain : contents.appendOnly = false)
    {heapBlock : BlockNumber} {payload : List UInt8} (binds : Binds image contents heapBlock payload) :
    contents.addressing.target heapBlock ≤ contents.lastMapPage ∧ ∃ block page offset bytes,
      contents.lastMapPage.toNat < block.toNat ∧ image.page? block = some page ∧ Regular page ∧
        page.itemAt offset = some bytes := by
  obtain ⟨block, place, bytes, covered, -, tuple, -⟩ := binds
  obtain ⟨page, at_place, kind, item⟩ := tupleAt_eq_some tuple
  have regular := sound.shape.regular_of at_place kind
  change Covers image contents heapBlock block at covered
  rw [Covers, if_neg (by rw [plain]; decide)] at covered
  have beyond : ¬ place.block ≤ contents.lastMapPage := by
    intro le
    have map := (sound.shape.plain plain place.block).mpr ⟨sound.shape.ne_meta_of_regular at_place regular, le⟩
    obtain ⟨page', at_place', map⟩ := map
    obtain rfl := Option.some.inj (at_place.symm.trans at_place')
    exact regular.not_map map
  have lt := UInt32.lt_iff_toNat_lt.mp (UInt32.not_le.mp beyond)
  exact ⟨covered.1 ▸ covered.2, place.block, page, _, bytes, lt, at_place, regular, item⟩

theorem isRegular_zero : ¬ isRegular .zero = true :=
  fun regular => absurd (isRegular_iff.mp regular) (by simp [pageType, regularType])

theorem startEvacuating_zero : startEvacuating .zero = .ok none := by
  simp only [startEvacuating, Page.isNew_zero]
  rfl

/-- A regular page is flagged if it has items. -/
theorem Regular.startEvacuating_eq (regular : Regular page) :
    (startEvacuating page = .ok (some (flagged page)) ∧ ∃ offset bytes, page.itemAt offset = some bytes) ∨
      (startEvacuating page = .ok none ∧ ∀ offset, page.itemAt offset = none) := by
  obtain ⟨any, eq, iff⟩ := regular.packed.hasItems_eq
  simp only [startEvacuating, regular.packed.ready, eq, pure, Except.pure]
  cases any with
  | true =>
      obtain ⟨offset, taken⟩ := iff.mp rfl
      obtain ⟨bytes, item⟩ := Option.isSome_iff_exists.mp taken
      exact .inl ⟨rfl, offset, bytes, item⟩
  | false =>
      refine .inr ⟨rfl, fun offset => ?_⟩
      cases item : page.itemAt offset with
      | none => rfl
      | some bytes => exact absurd (iff.mpr ⟨offset, by rw [item]; rfl⟩) (by decide)

/-- The items of a regular page of a sound index can be moved. -/
theorem Sound.movable (sound : Sound image contents) (at_block : image.page? block = some page)
    (regular : Regular page) {items : List (Nat × List UInt8)}
    (mem : ∀ offset bytes, (offset, bytes) ∈ items ↔ page.itemAt offset = some bytes) :
    Movable contents.addressing items := by
  intro offset bytes inside
  have item := (mem offset bytes).mp inside
  have small : offset < 2 ^ 16 := by
    have bounds := regular.packed.offset_of_itemAt item
    have lower := regular.packed.lower_eq
    have := page.lower.toNat_lt
    simp only [headerSize, Page.pointerSize] at lower
    omega
  have offset_eq : (UInt16.ofNat offset).toNat = offset := UInt16.toNat_ofNat_of_lt' small
  have tuple : tupleAt image ⟨block, UInt16.ofNat offset⟩ = some bytes := by
    rw [tupleAt_of_regular at_block regular]
    simp only [offset_eq]
    exact item
  obtain ⟨summary, -, decoded, start, -⟩ := sound.linked.owned _ _ tuple
  exact ⟨small, regular.length_le item, summary, decoded, start⟩

/-- Without a lock, the metapage can be locked. -/
theorem Steady.meta_free (steady : Steady mode moment) (free : moment.held = []) :
    metaBlock.toNat < moment.scene.image.size ∧ metaBlock ∉ moment.held := by
  obtain ⟨metapage, at_meta, -⟩ := steady.sound.shape.metapage
  rw [free]
  exact ⟨Image.lt_of_page? at_meta, List.not_mem_nil⟩

/-- Bringing the block into memory that the range map grows into. If it is not there, others may
add it first. -/
theorem reachBlock_spec (steady : Steady mode moment) (held : moment.held ≠ [])
    (near : block.toNat ≤ moment.scene.image.size) :
    Ensures mode (fun reached later => Adds mode moment later ∧ later.held = moment.held ∧
      (reached = true ∧ later.scene = moment.scene ∧ block.toNat < later.scene.image.size ∨
        block.toNat = moment.scene.image.size ∧ ∃ new, Appended mode moment.scene new later ∧
          (reached = true ∧ new = block ∨ reached = false ∧ moment.scene.image.size < new.toNat)))
      (Coverage.reachBlock block) moment := by
  simp only [Coverage.reachBlock]
  refine steady.countBlocks fun m1 w1 s1 a1 => ?_
  have count : (UInt32.ofNat m1.scene.image.size).toNat = m1.scene.image.size :=
    UInt32.toNat_ofNat_of_lt' s1.sound.shape.small
  have scene1 := (w1.locked held).1
  split
  · rename_i inside
    have inside : block.toNat < m1.scene.image.size := by
      have := UInt32.lt_iff_toNat_lt.mp inside
      rwa [count] at this
    refine s1.pin (fun _ => inside) fun m2 w2 s2 a2 inside2 => ?_
    have waits := w1.trans w2
    exact ⟨.of_waits waits s2 (a2.trans a1), waits.held_eq, .inl ⟨rfl, (waits.locked held).1, inside2⟩⟩
  · rename_i outside
    have behind : block.toNat = moment.scene.image.size := by
      have := UInt32.le_iff_toNat_le.mp (UInt32.not_lt.mp outside)
      rw [count, scene1] at this
      exact Nat.le_antisymm near this
    refine s1.allocate fun m2 new m3 w2 a2 s2 added a3 held3 => ?_
    have waits := w1.trans w2
    rw [(waits.locked held).1] at added
    have held3' : m3.held = moment.held := held3.trans waits.held_eq
    refine ⟨added.adds (a3.trans a1) held3', held3', .inr ⟨behind, new, added, ?_⟩⟩
    by_cases first : new = block
    · exact .inl ⟨decide_eq_true first, first⟩
    · refine .inr ⟨decide_eq_false first, Nat.lt_of_le_of_ne added.behind fun eq => first ?_⟩
      exact UInt32.toNat_inj.mp (eq.symm.trans behind.symm)

theorem Moment.Costs.of_current {target : BlockNumber} {count : Nat}
    (last : moment.contents.lastMapPage = block) (current : moment.accessor.lastMapPage = block)
    (enough : 2 * (target.toNat - block.toNat) + 1 ≤ count) : moment.Costs target count :=
  ⟨0, 1, fun ne => absurd (current.trans last.symm) ne, fun _ => Nat.le_refl _, by rw [last]; omega⟩

theorem Knows.withLast {accessor : Accessor} {last : BlockNumber} (knows : Knows image contents accessor)
    (le : last ≤ contents.lastMapPage) : Knows image contents { accessor with lastMapPage := last } :=
  ⟨knows.addressing_eq, le, knows.chain, knows.position, knows.running⟩

/-- The block after the last range map page has a number. -/
theorem Geometry.toNat_next (shape : Geometry image contents) (plain : contents.appendOnly = false) :
    (contents.lastMapPage + 1).toNat = contents.lastMapPage.toNat + 1 := by
  have last := shape.last_lt plain
  have small := shape.small
  rw [UInt32.toNat_add]
  exact Nat.mod_eq_of_lt (by simp only [UInt32.toNat_one]; omega)

theorem Geometry.last_ne_invalid (shape : Geometry image contents) (plain : contents.appendOnly = false) :
    contents.lastMapPage ≠ invalidBlock := by
  intro eq
  have next := shape.toNat_next plain
  rw [eq] at next
  cases next

/-- The block after the last range map page is not one of the range map yet. -/
theorem Geometry.next_kind (shape : Geometry image contents) (plain : contents.appendOnly = false)
    (next : block.toNat = contents.lastMapPage.toNat + 1) (at_block : image.page? block = some page) :
    page = .zero ∨ Regular page := by
  have apart : block ≠ metaBlock := by
    rintro rfl
    simp [metaBlock] at next
  rcases shape.kinds _ page apart at_block with zero | regular | map
  · exact .inl zero
  · exact .inr regular
  · have le := UInt32.le_iff_toNat_le.mp ((shape.plain plain _).mp ⟨page, at_block, map⟩).2
    omega

/-- What the range map may grow into is flagged if it has summaries, and is free otherwise. -/
theorem startEvacuating_cases (kind : page = .zero ∨ Regular page) :
    (startEvacuating page = .ok (some (flagged page)) ∧ Regular page ∧
        ∃ offset bytes, page.itemAt offset = some bytes) ∨
      (startEvacuating page = .ok none ∧ (page = .zero ∨ Regular page ∧ ∀ offset, page.itemAt offset = none)) := by
  rcases kind with rfl | regular
  · exact .inr ⟨startEvacuating_zero, .inl rfl⟩
  · exact regular.startEvacuating_eq.imp (fun h => ⟨h.1, regular, h.2⟩) fun h => ⟨h.1, .inr ⟨regular, h.2⟩⟩

/-- Flagging a page and moving its summaries away. Alone, the page has none afterwards. -/
theorem flagAndEvacuate_spec {rounds : Nat} (steady : Steady mode moment) (held : moment.held ≠ [])
    (plain : moment.accessor.addressing.appendOnly = false)
    (current : moment.accessor.lastMapPage = moment.contents.lastMapPage)
    (at_block : moment.scene.image.page? block = some page) (regular : Regular page)
    (loose : mode = .solo → ∀ other, moment.scene.Loose other → other = block)
    (fuel : mode = .solo → enoughRounds ≤ rounds) :
    Ensures mode (fun growth later => growth = .retry ∧ later.held = [] ∧ Steady mode later ∧
      SameCache moment.accessor later.accessor ∧
      (mode = .solo → Drift .solo moment.scene later.scene ∧ later.contents = moment.contents ∧
        (∀ other, later.scene.Loose other → other = block) ∧
        ∃ page, later.scene.image.page? block = some page ∧ ∀ offset, page.itemAt offset = none))
      (do
        Procedure.change block (flagged page)
        let items ← (flagged page).items
        Procedure.releaseAll
        Placement.evacuate rounds block items
        return Growth.retry) moment := by
  have regular' := (regular_flagged regular).1
  have quiet := steady.sound.shape.quiet_flag at_block regular
  obtain ⟨steady', drift⟩ := steady.quietly (.flag at_block regular) quiet
  obtain ⟨items, items_eq, nodup, mem⟩ := regular'.packed.items_eq
  have at_block' := Image.page?_put_same (flagged page) at_block
  have contents_eq : Image.contents (moment.scene.image.put block (flagged page)) = moment.contents :=
    Image.contents_eq (quiet.sound steady.sound).holds
  have movable : Movable moment.accessor.addressing items := by
    have := steady'.sound.movable at_block' regular' mem
    rwa [← steady'.knows.addressing_eq] at this
  refine Ensures.change held ?_
  rw [items_eq, ensures_lift_ok]
  refine Ensures.locked held ?_
  refine (evacuate_spec (steady'.lock []) rfl movable nodup (fun _ =>
    ⟨_, at_block', regular'.isRegular, fun offset bytes => (mem offset bytes).symm⟩) (fun _ => ?_)
    (fun solo other loose' => ?_) (fun _ offset bytes mem' => ?_) fuel).andThen ?_
  · exact ⟨plain, current.trans (congrArg Metapage.lastMapPage contents_eq).symm⟩
  · exact (Scene.Loose.of_put loose').elim (loose solo other) id
  · have small : (UInt16.ofNat offset).toNat = offset := UInt16.toNat_ofNat_of_lt' (movable offset bytes mem').1
    exact retains_of_item at_block' regular' (isEvacuating_flagged page)
      (by rw [small]; exact (mem offset bytes).mp mem')
  · rintro - later ⟨free, steady'', cache, done⟩
    refine ⟨rfl, free, steady'', cache, ?_⟩
    rintro rfl
    obtain ⟨drift', contents_eq', clean, empty⟩ := done rfl
    exact ⟨drift.trans drift', contents_eq'.trans contents_eq, clean, empty⟩

/-- Making a page the last one of the range map. -/
theorem addMapPage_spec {metapage : Page} (steady : Steady mode moment) (held : moment.held ≠ [])
    (plain : moment.contents.appendOnly = false) (next : block.toNat = moment.contents.lastMapPage.toNat + 1)
    (at_block : moment.scene.image.page? block = some page)
    (free : page = .zero ∨ Regular page ∧ ∀ offset, page.itemAt offset = none)
    (at_meta : moment.scene.image.page? metaBlock = some metapage)
    (loose : mode = .solo → ∀ other, moment.scene.Loose other → other = block) :
    Ensures mode (fun growth later => growth = .extended block ∧ later.held = [] ∧ Steady mode later ∧
      later.accessor = { moment.accessor with lastMapPage := block } ∧ later.contents.lastMapPage = block ∧
      (mode = .solo → Drift .solo moment.scene later.scene ∧ ∀ other, ¬ later.scene.Loose other))
      (do
        Procedure.change block (freshPage mapType)
        Procedure.change metaBlock ({ moment.contents with lastMapPage := block }.write metapage)
        Procedure.logged (.extendMap block false 0 0 invalidBlock)
          [(metaBlock, { moment.contents with lastMapPage := block }.write metapage), (block, freshPage mapType)]
        Procedure.remember { moment.accessor with lastMapPage := block }
        Procedure.releaseAll
        return Growth.extended block) moment := by
  have change : Change mode moment.scene moment.contents _ _ _ := .extendPlain plain next at_block free at_meta
  have step : Advance mode moment.scene _ := .commit steady.sound change (Mode.permits_of_none rfl)
  have last_eq : _ = block := congrArg Metapage.lastMapPage (Image.contents_eq (change.effect steady.sound).sound.holds)
  refine Ensures.change held (Ensures.change held ?_)
  refine Ensures.committed held steady.evolves steady.sound change (.swap _ _ _) rfl ?_
  have le : moment.accessor.lastMapPage ≤ block := by
    refine UInt32.le_trans steady.knows.last_le (UInt32.le_iff_toNat_le.mpr ?_)
    omega
  refine Ensures.remember held (fun _ => Accessor.keeps_last le) (Ensures.locked held ⟨rfl, rfl, ?_, rfl, last_eq, ?_⟩)
  · refine Steady.lock (Steady.learn (steady.advance step) ?_) []
    exact (steady.advance step).knows.withLast (UInt32.le_of_eq last_eq.symm)
  · rintro rfl
    refine ⟨.single step fun _ => change.neutral steady.sound fun _ _ eq => (by cases eq), fun other loose' => ?_⟩
    obtain ⟨loose', flags⟩ := change.loose steady.sound loose'
    obtain rfl := loose rfl other loose'
    have flag := flags _ (List.mem_cons_of_mem _ List.mem_cons_self)
    rw [isEvacuating_freshPage] at flag
    cases flag

/-- A page without summaries can be taken at once. -/
theorem Image.not_unready {number : Nat} (at_block : image.page? block = some page) (next : block.toNat = number)
    (empty : isRegular page = true → ∀ offset, page.itemAt offset = none) : ¬ image.Unready number := by
  subst next
  rintro (missing | ⟨other, offset, bytes, at_other, kind, item⟩)
  · exact absurd (Image.lt_of_page? at_block) (Nat.not_lt.mpr missing)
  · obtain rfl := Option.some.inj (at_block.symm.trans at_other)
    cases (empty kind offset).symm.trans item

/-- A round after which the range map can grow is one less to go. -/
theorem Moment.Costs.readied {later : Moment} {target : BlockNumber} {count : Nat}
    (costs : moment.Costs target (count + 1)) (same : later.contents = moment.contents)
    (current : later.accessor.lastMapPage = moment.contents.lastMapPage)
    (unready : moment.scene.image.Unready (moment.contents.lastMapPage.toNat + 1))
    (ready : ¬ later.scene.image.Unready (moment.contents.lastMapPage.toNat + 1)) : later.Costs target count := by
  obtain ⟨stale, occupied, -, is_unready, enough⟩ := costs
  have := is_unready unready
  rw [Moment.Costs, same]
  exact ⟨0, 0, fun ne => absurd current ne, fun h => absurd h ready, by omega⟩

/-- One round of extending the range map of a plain table. Alone, its result says what it did. -/
theorem extendPlain_spec {rounds : Nat} {target : BlockNumber} (steady : Steady mode moment)
    (free : moment.held = []) (plain : moment.accessor.addressing.appendOnly = false)
    (below : mode = .solo → moment.accessor.lastMapPage < target)
    (growing : mode = .solo → moment.Growing target) (fuel : mode = .solo → enoughRounds ≤ rounds) :
    Ensures mode (fun growth later => later.held = [] ∧ Steady mode later ∧
      later.accessor.addressing = moment.accessor.addressing ∧
      (mode = .solo → Drift .solo moment.scene later.scene ∧ later.Growing target ∧
        (∀ count, moment.Costs target (count + 1) → later.Costs target count) ∧
        growth.Extends moment.contents later.contents))
      (Coverage.extendPlain rounds) moment := by
  simp only [Coverage.extendPlain]
  refine steady.accessor fun m1 w1 s1 a1 => ?_
  refine s1.acquire (fun _ => s1.meta_free (w1.held_eq.trans free)) fun m2 metapage w2 s2 a2 at_meta _ => ?_
  have waits := w1.trans w2
  have accessor2 : m2.accessor = moment.accessor := a2.trans a1
  have plain2 : m2.contents.appendOnly = false := by
    have := congrArg Addressing.appendOnly s2.knows.addressing_eq
    rw [accessor2, plain] at this
    exact this.symm
  have read := (s2.sound.shape.metaType_of at_meta).2 moment.accessor.index metaBlock
  rw [read, ensures_lift_value]
  have held2 : m2.held = [] := waits.held_eq.trans free
  have knows2 : Knows m2.scene.image m2.contents moment.accessor := accessor2 ▸ s2.knows
  by_cases same : m2.contents.lastMapPage = moment.accessor.lastMapPage
  · rw [if_neg (not_not.mpr same), if_neg (s2.sound.shape.last_ne_invalid plain2)]
    have next := s2.sound.shape.toNat_next plain2
    generalize m2.contents.lastMapPage + 1 = block at next
    refine (reachBlock_spec (s2.lock _) (List.cons_ne_nil _ _)
      (by rw [next]; exact s2.sound.shape.last_lt plain2)).andThen ?_
    rintro reached m3 ⟨adds3, held3, reached3⟩
    have held3' : m3.held = [metaBlock] := by rw [held3, held2]
    have contents3 : m3.contents = m2.contents :=
      (adds3.kept (.inr (List.cons_ne_nil _ _))).contents_eq s2.sound.holds
    have accessor3 : m3.accessor = moment.accessor := adds3.accessor_eq.trans accessor2
    have drift3 : Drift mode moment.scene m3.scene := (Drift.of_interferes waits.interferes).trans adds3.drift
    by_cases missed : reached = false
    · -- others took the number of the block, whose page is blank now
      subst missed
      refine Ensures.locked (by rw [held3']; exact List.cons_ne_nil _ _) ⟨rfl, adds3.steady.lock [],
        congrArg Accessor.addressing accessor3, ?_⟩
      rintro rfl
      obtain ⟨behind, new, added, crowded⟩ := reached3.resolve_left fun h => nomatch h.1
      have crowded := (crowded.resolve_left fun h => nomatch h.1).2
      have blank := added.blank block (Nat.le_of_eq behind.symm) (UInt32.le_iff_toNat_le.mpr (by omega))
      rw [waits.scene_eq_of_solo] at behind
      rw [contents_solo waits] at next same
      refine ⟨drift3, fun other loose => absurd loose (added.crowded rfl crowded other), fun count costs => ?_,
        congrArg Metapage.lastMapPage (contents3.trans (contents_solo waits))⟩
      refine costs.readied (contents3.trans (contents_solo waits))
        ((congrArg Accessor.lastMapPage accessor3).trans same.symm) (.inl (by omega)) ?_
      exact Image.not_unready blank next fun kind => absurd kind isRegular_zero
    obtain rfl : reached = true := (Bool.not_eq_false _).mp missed
    obtain ⟨inside3, scene3⟩ : block.toNat < m3.scene.image.size ∧
        (m3.scene = m2.scene ∨ Appended mode m2.scene block m3) := by
      rcases reached3 with ⟨-, eq, inside⟩ | ⟨-, new, added, taken⟩
      · exact ⟨inside, .inl eq⟩
      · obtain rfl := (taken.resolve_right fun h => nomatch h.1).2
        exact ⟨Image.lt_of_page? added.at_block, .inr added⟩
    have apart : block ∉ m3.held := by
      rw [held3', List.mem_singleton]
      rintro rfl
      simp [metaBlock] at next
    refine adds3.steady.acquire (fun _ => ⟨inside3, apart⟩) fun m4 page w4 s4 a4 at4 free4 => ?_
    have scene4 : m4.scene = m3.scene := (w4.locked (by rw [held3']; exact List.cons_ne_nil _ _)).1
    have keeps : m2.scene.image.Keeps m4.scene.image := by
      rw [scene4]
      exact adds3.kept (.inr (List.cons_ne_nil _ _))
    have contents4 : m4.contents = m2.contents := keeps.contents_eq s2.sound.holds
    have accessor4 : m4.accessor = moment.accessor := a4.trans (adds3.accessor_eq.trans accessor2)
    have drift4 : Drift mode moment.scene m4.scene := by
      rw [scene4]
      exact (Drift.of_interferes waits.interferes).trans adds3.drift
    have loose4 : mode = .solo → ∀ other, m4.scene.Loose other → other = block := by
      rintro rfl other loose
      have before : moment.scene.Loose other → other = block := fun loose => by
        have := (growing rfl other loose).1
        rw [← contents_solo waits, ← next] at this
        exact UInt32.toNat_inj.mp this
      rw [scene4] at loose
      rcases scene3 with eq | added
      · rw [eq] at loose
        exact before (by rwa [← waits.scene_eq_of_solo])
      · refine (added.loose rfl other loose).elim (fun loose => before ?_) id
        rwa [← waits.scene_eq_of_solo]
    have plain4 : m4.contents.appendOnly = false := by rw [contents4]; exact plain2
    have next4 : block.toNat = m4.contents.lastMapPage.toNat + 1 := by rw [contents4]; exact next
    have kind := s4.sound.shape.next_kind plain4 next4 at4
    have passes : ¬ (!page.isNew && !isRegular page) = true := by
      rcases kind with rfl | regular
      · simp [Page.isNew_zero]
      · simp [regular.isRegular]
    rw [if_neg passes]
    rcases startEvacuating_cases kind with ⟨evacuating, regular, taken⟩ | ⟨nothing, usable⟩
    · rw [evacuating, ensures_lift_ok]
      have occupied_before : mode = .solo → moment.scene.image.page? block = some page := by
        rintro rfl
        rw [← waits.scene_eq_of_solo]
        rw [scene4] at at4
        rcases scene3 with eq | added
        · rwa [eq] at at4
        · obtain rfl := Option.some.inj (added.at_block.symm.trans at4)
          exact absurd rfl regular.ne_zero
      have current : m4.accessor.lastMapPage = m4.contents.lastMapPage := by rw [accessor4, contents4, same]
      refine (flagAndEvacuate_spec (s4.lock (block :: m4.held)) (List.cons_ne_nil _ _) (by rw [accessor4]; exact plain)
        current at4 regular loose4 fuel).mono ?_
      rintro growth m6 ⟨rfl, free6, s6, cache6, done⟩
      refine ⟨free6, s6, cache6.addressing_eq.trans (congrArg Accessor.addressing accessor4), ?_⟩
      rintro rfl
      obtain ⟨drift6, kept6, loose6, page6, at6, empty⟩ := done rfl
      have contents6 : m6.contents = m2.contents := kept6.trans contents4
      refine ⟨drift4.trans drift6, fun other loose => ?_, fun count costs => ?_,
        congrArg Metapage.lastMapPage (contents6.trans (contents_solo waits))⟩
      · obtain rfl := loose6 other loose
        rw [contents6]
        exact ⟨next, by rw [same]; exact below rfl⟩
      · obtain ⟨offset, bytes, item⟩ := taken
        rw [contents_solo waits] at next same
        refine costs.readied (contents6.trans (contents_solo waits)) ?_ (.inr ?_)
          (Image.not_unready at6 next fun _ => empty)
        · rw [same, cache6.last_eq]
          exact congrArg Accessor.lastMapPage accessor4
        · rw [← next]
          exact ⟨page, offset, bytes, occupied_before rfl, regular.isRegular, item⟩
    · rw [nothing, ensures_lift_ok, ← contents4, ← accessor4]
      refine (addMapPage_spec (s4.lock (block :: m4.held)) (List.cons_ne_nil _ _) plain4 next4 at4 usable
        (keeps _ _ at_meta) loose4).mono ?_
      rintro growth m5 ⟨rfl, free5, s5, accessor5, last5, done⟩
      refine ⟨free5, s5, by rw [accessor5], ?_⟩
      rintro rfl
      obtain ⟨drift5, clean⟩ := done rfl
      refine ⟨drift4.trans drift5, fun other loose => absurd loose (clean other), fun count costs => ?_,
        last5, by rw [← contents_solo waits]; exact next⟩
      obtain ⟨stale, unready, -, -, enough⟩ := costs
      rw [← contents_solo waits] at enough
      have lt := UInt32.lt_iff_toNat_lt.mp (below rfl)
      rw [← same] at lt
      exact .of_current last5 (by rw [accessor5]) (by omega)
  · rw [if_pos same]
    have keeps2 : m2.accessor.Keeps { moment.accessor with lastMapPage := m2.contents.lastMapPage } := by
      rw [accessor2]
      exact Accessor.keeps_last knows2.last_le
    refine Ensures.remember (List.cons_ne_nil _ _) (fun _ => keeps2)
      (Ensures.locked (List.cons_ne_nil _ _) ⟨rfl, ?_, rfl, ?_⟩)
    · exact (s2.learn (knows2.withLast (UInt32.le_refl _))).lock []
    · rintro rfl
      have contents2 := contents_solo waits
      refine ⟨by rw [waits.scene_eq_of_solo]; exact .refl _ _, ?_, fun count costs => ?_,
        congrArg Metapage.lastMapPage contents2⟩
      · have := growing rfl
        rw [Moment.Growing] at this ⊢
        rwa [← waits.scene_eq_of_solo, ← contents2] at this
      · obtain ⟨stale, unready, is_stale, is_unready, enough⟩ := costs
        rw [← contents2] at is_stale is_unready enough
        rw [← waits.scene_eq_of_solo] at is_unready
        have := is_stale (Ne.symm same)
        have left : 2 * (target.toNat - m2.contents.lastMapPage.toNat) + 0 + unready ≤ count := by omega
        exact ⟨0, unready, fun ne => absurd rfl ne, is_unready, left⟩

theorem Moment.Costs.wait {later : Moment} {target : BlockNumber} {count : Nat} (costs : moment.Costs target count)
    (waits : Waits .solo moment later) (accessor : later.accessor = moment.accessor) :
    later.Costs target count := by
  rw [Moment.Costs, contents_solo waits, waits.scene_eq_of_solo, accessor]
  exact costs

theorem Moment.Growing.wait {later : Moment} {target : BlockNumber} (growing : moment.Growing target)
    (waits : Waits .solo moment later) : later.Growing target := by
  rw [Moment.Growing, contents_solo waits, waits.scene_eq_of_solo]
  exact growing

/-- As long as the accessor does not know that the target is reached, there is something to do. -/
theorem Moment.Costs.pos {target : BlockNumber} {count : Nat} (costs : moment.Costs target count)
    (below : moment.accessor.lastMapPage < target) : 0 < count := by
  obtain ⟨stale, unready, is_stale, -, enough⟩ := costs
  have lt := UInt32.lt_iff_toNat_lt.mp below
  by_cases same : moment.accessor.lastMapPage = moment.contents.lastMapPage
  · rw [same] at lt
    omega
  · have := is_stale same
    omega

/-- Extending the range map of a plain table. -/
theorem ensurePlain_spec {limit rounds : Nat} {target : BlockNumber} (steady : Steady mode moment)
    (free : moment.held = []) (plain : moment.accessor.addressing.appendOnly = false)
    (growing : mode = .solo → moment.Growing target) (fuel : mode = .solo → enoughRounds ≤ limit)
    (costs : mode = .solo → ∃ count, moment.Costs target count ∧ count < rounds) :
    Ensures mode (fun reached later => later.held = [] ∧ Steady mode later ∧
      later.accessor.addressing = moment.accessor.addressing ∧ reached = target ∧
      target ≤ later.accessor.lastMapPage ∧
      (mode = .solo → Drift .solo moment.scene later.scene ∧ ∀ block, ¬ later.scene.Loose block))
      (Coverage.ensurePlain limit target rounds) moment := by
  induction rounds generalizing moment with
  | zero =>
      cases mode with
      | shared rights => exact ⟨Mode.shared_ne_solo rights, steady⟩
      | solo =>
          obtain ⟨count, -, lt⟩ := costs rfl
          exact absurd lt (Nat.not_lt_zero _)
  | succ rounds ih =>
      simp only [Coverage.ensurePlain]
      refine steady.accessor fun m1 w1 s1 a1 => ?_
      split
      · rename_i reached
        rw [← a1] at reached
        refine ⟨w1.held_eq.trans free, s1, by rw [a1], rfl, reached, ?_⟩
        rintro rfl
        refine ⟨by rw [w1.scene_eq_of_solo]; exact .refl _ _, fun block loose => ?_⟩
        have lt := ((growing rfl).wait w1 block loose).2
        exact absurd (UInt32.lt_of_lt_of_le lt (UInt32.le_trans reached s1.knows.last_le)) (UInt32.lt_irrefl _)
      · rename_i short
        have below := UInt32.not_le.mp short
        refine s1.poll fun m2 w2 s2 a2 => ?_
        have waits := w1.trans w2
        have accessor2 : m2.accessor = moment.accessor := a2.trans a1
        refine (extendPlain_spec s2 (waits.held_eq.trans free) (by rw [accessor2]; exact plain)
          (fun _ => by rw [accessor2]; exact below) (fun solo => ?_) fuel).andThen ?_
        · subst solo
          exact (growing rfl).wait waits
        rintro growth m3 ⟨free3, s3, addressing3, done⟩
        rw [accessor2] at addressing3
        refine (ih s3 free3 (by rw [addressing3]; exact plain) (fun solo => ?_) (fun solo => ?_)).mono ?_
        · subst solo
          exact (done rfl).2.1
        · subst solo
          obtain ⟨count, costs, lt⟩ := costs rfl
          have costs2 := costs.wait waits accessor2
          have pos := costs2.pos (by rw [accessor2]; exact below)
          obtain ⟨count, rfl⟩ := Nat.exists_eq_succ_of_ne_zero (Nat.ne_of_gt pos)
          exact ⟨count, (done rfl).2.2.1 count costs2, by omega⟩
        · rintro reached m4 ⟨free4, s4, addressing4, eq, le, rest⟩
          refine ⟨free4, s4, addressing4.trans addressing3, eq, le, ?_⟩
          rintro rfl
          obtain ⟨drift4, clean⟩ := rest rfl
          have drift3 := (done rfl).1
          rw [waits.scene_eq_of_solo] at drift3
          exact ⟨drift3.trans drift4, clean⟩

end Plain

/-! ## Chains -/

/-- The accessor with something else about a chain. -/
def Accessor.withChain (accessor : Accessor) (sequence : Nat) (chain : Chain) : Accessor :=
  { accessor with chains := Chains.setChain accessor.chains sequence chain }

/-- The accessor is at the end of a chain as far as it knows. -/
def Accessor.AtEnd (accessor : Accessor) (sequence : Nat) : Prop :=
  accessor.position = ⟨some sequence, (accessor.chainOf sequence).last, (accessor.chainOf sequence).lastLogical⟩

/-- So many rounds are enough to extend a chain up to a number. -/
def Moment.ChainCosts (moment : Moment) (sequence : Nat) (target : UInt32) (rounds : Nat) : Prop :=
  ∃ stale, (moment.accessor.chainOf sequence ≠ moment.contents.chain sequence → 1 ≤ stale) ∧
    target.toNat - moment.accessor.position.logical.toNat + stale ≤ rounds

/-- Alone, a round of extending a chain brought the accessor up to date or added a page. -/
structure ChainRound (moment : Moment) (sequence : Nat) (later : Moment) : Prop where
  drift : Drift .solo moment.scene later.scene
  loose : ∀ block, later.scene.Loose block → moment.scene.Loose block
  current : later.accessor.chainOf sequence = later.contents.chain sequence
  progress : moment.accessor.chainOf sequence ≠ moment.contents.chain sequence ∧
      (moment.accessor.chainOf sequence).lastLogical ≤ (later.contents.chain sequence).lastLogical ∨
    (later.contents.chain sequence).lastLogical.toNat =
      (moment.accessor.chainOf sequence).lastLogical.toNat + 1

section Chains

variable {mode : Mode} {moment : Moment} {image : Image} {contents : Metapage} {accessor : Accessor}
  {sequence : Nat} {block : BlockNumber} {target : UInt32}

theorem Accessor.chainOf_withChain_same (bound : sequence < sequenceCount) (chain : Chain) :
    (accessor.withChain sequence chain).chainOf sequence = chain := by
  simp only [chainOf, withChain, Chains.setChain, Vector.getElem?_setIfInBounds_self, bound, if_true,
    Option.getD_some]

theorem Accessor.chainOf_withChain_other {other : Nat} (ne : other ≠ sequence) (chain : Chain) :
    (accessor.withChain sequence chain).chainOf other = accessor.chainOf other := by
  simp only [chainOf, withChain, Chains.setChain, Vector.getElem?_setIfInBounds_ne (Ne.symm ne)]

/-- An accessor that takes over what a chain is finds what it found. -/
theorem Accessor.keeps_withChain (bound : sequence < sequenceCount) {chain : Chain}
    (known : accessor.chainOf sequence ≠ .empty → chain ≠ .empty) :
    accessor.Keeps (accessor.withChain sequence chain) := by
  have still : ∀ other, accessor.chainOf other ≠ .empty →
      (accessor.withChain sequence chain).chainOf other ≠ .empty := by
    intro other
    by_cases eq : other = sequence
    · subst eq
      rwa [chainOf_withChain_same bound]
    · rw [chainOf_withChain_other eq]
      exact id
  refine ⟨UInt32.le_refl _, fun other seen => ⟨still other seen.1, seen.2⟩, fun anchored other eq ne => ?_⟩
  exact still other (anchored other eq ne)

/-- Taking over from the metapage what it says about a chain. -/
theorem Knows.refresh (knows : Knows image contents accessor) (shape : Geometry image contents) {chain : Chain}
    (chain_eq : contents.chain sequence = chain) :
    Knows image contents (accessor.withChain sequence chain) where
  addressing_eq := knows.addressing_eq
  last_le := knows.last_le
  position := knows.position
  running := knows.running
  chain chained other bound := by
    by_cases eq : other = sequence
    · subst eq
      rw [Accessor.chainOf_withChain_same bound, ← chain_eq]
      rcases shape.chain_ends chained bound with ⟨empty, -⟩ | ⟨⟨number, first, -⟩, last, -⟩
      · exact .inl empty
      · exact .inr ⟨rfl, shape.inChain_ne_invalid first, last⟩
    · rw [Accessor.chainOf_withChain_other eq]
      exact knows.chain chained other bound

/-- An accessor that knows the last page of a chain knows the chain. -/
theorem Knows.chain_eq (knows : Knows image contents accessor) (shape : Geometry image contents)
    (chained : contents.appendOnly = true) (bound : sequence < sequenceCount)
    (last : (contents.chain sequence).last = (accessor.chainOf sequence).last) :
    accessor.chainOf sequence = contents.chain sequence := by
  have invalid : Chain.empty.last = invalidBlock := rfl
  rcases knows.chain chained sequence bound with known | ⟨first, -, inside⟩
  · rcases shape.chain_ends chained bound with ⟨empty, -⟩ | ⟨-, inside, -⟩
    · rw [known, empty]
    · rw [last, known, invalid] at inside
      exact absurd rfl (shape.inChain_ne_invalid inside)
  · rcases shape.chain_ends chained bound with ⟨-, none⟩ | ⟨-, inside', -⟩
    · exact absurd inside (none _ _)
    · rw [last] at inside'
      have number := inChain_number inside inside'
      cases known : accessor.chainOf sequence
      cases actual : contents.chain sequence
      rw [known, actual] at first last number
      simp only at first last number
      rw [first, last, number]

/-- Locking the last page of a chain. -/
theorem lockTail_spec (steady : Steady mode moment) (held : moment.held ≠ [])
    (map : block ≠ invalidBlock → ∃ page, moment.scene.image.page? block = some page ∧ MapPage page)
    (free : block ∉ moment.held) :
    Ensures mode (fun found later => Steady mode later ∧ later.scene = moment.scene ∧
      later.accessor = moment.accessor ∧ later.held ≠ [] ∧
      (found = none ∧ block = invalidBlock ∨
        ∃ page, found = some page ∧ moment.scene.image.page? block = some page))
      (Chains.lockTail accessor block) moment := by
  simp only [Chains.lockTail]
  split
  · rename_i invalid
    exact ⟨steady, rfl, rfl, held, .inl ⟨rfl, invalid⟩⟩
  · rename_i valid
    obtain ⟨page, at', map⟩ := map valid
    refine steady.pin (fun _ => Image.lt_of_page? at') fun m1 w1 s1 a1 inside => ?_
    refine s1.acquire (fun _ => ⟨inside, by rwa [w1.held_eq]⟩) fun m2 page' w2 s2 a2 at2 _ => ?_
    have waits := w1.trans w2
    have scene := (waits.locked held).1
    rw [scene, at'] at at2
    obtain rfl := Option.some.inj at2
    rw [if_pos (isMap_iff.mpr map.kind)]
    exact ⟨s2.lock _, scene, a2.trans a1, List.cons_ne_nil _ _, .inr ⟨page, rfl, at'⟩⟩

theorem Metapage.chain_withGrown (contents : Metapage) (bound : sequence < sequenceCount) (block : BlockNumber)
    (number : UInt32) : (contents.withGrown sequence block number).chain sequence =
      (contents.chain sequence).grown block number := by
  simp only [chain, withGrown, Chains.setChain, Vector.getElem?_setIfInBounds_self, bound, if_true,
    Option.getD_some]

/-- The last steps of extending a chain, after the pages were written. -/
theorem logGrowth_spec {linked writes : List (BlockNumber × Page)} {metapage : Page} (steady : Steady mode moment)
    (held : moment.held ≠ []) (chained : moment.contents.appendOnly = true) (bound : sequence < sequenceCount)
    (beyond : (moment.contents.chain sequence).lastLogical < target)
    (follows : mode.Dense → target.toNat = (moment.contents.chain sequence).lastLogical.toNat + 1)
    (free : moment.scene.image.page? block = some .zero)
    (at_meta : moment.scene.image.page? metaBlock = some metapage)
    (tail : LinkedTail moment.scene.image (moment.contents.chain sequence).last block linked)
    (perm : writes.Perm ([(metaBlock, (moment.contents.withGrown sequence block target).write metapage),
      (block, setLogicalPage (freshPage mapType) target)] ++ linked)) :
    Ensures mode (fun _ later => later.held = [] ∧ Steady mode later ∧
      later.accessor = moment.accessor.withChain sequence ((moment.contents.chain sequence).grown block target) ∧
      later.contents.chain sequence = (moment.contents.chain sequence).grown block target ∧
      (mode = .solo → Drift .solo moment.scene later.scene ∧
        ∀ other, later.scene.Loose other → moment.scene.Loose other ∧ other ≠ block))
      (do
        Procedure.remember (moment.accessor.withChain sequence ((moment.contents.chain sequence).grown block target))
        Procedure.logged (.extendMap block true (UInt32.ofNat sequence) target (moment.contents.chain sequence).last)
          ([(metaBlock, (moment.contents.withGrown sequence block target).write metapage),
            (block, setLogicalPage (freshPage mapType) target)] ++ linked)
        Procedure.releaseAll
        return Growth.extended block) (moment.withImage (moment.scene.image.putAll writes)) := by
  have change : Change mode moment.scene moment.contents _ _ _ :=
    .extendChain chained bound beyond follows free at_meta tail
  have contents' := Image.contents_eq (change.effect steady.sound).sound.holds
  have chain' := moment.contents.chain_withGrown bound block target
  rw [← contents'] at chain'
  have step : Advance mode moment.scene _ := .commit steady.sound change (Mode.permits_of_none rfl)
  have steady' := steady.advance step
  have grown : ((moment.contents.chain sequence).grown block target) ≠ .empty := by
    intro empty
    have zero : target = 0 := congrArg Chain.lastLogical empty
    rw [zero] at beyond
    exact absurd beyond (UInt32.not_lt.mpr UInt32.zero_le)
  refine Ensures.remember held (fun _ => Accessor.keeps_withChain bound fun _ => grown)
    (Ensures.committed held steady.evolves steady.sound change perm rfl
      (Ensures.locked held ⟨rfl, ?_, rfl, chain', ?_⟩))
  · exact (steady'.learn (steady'.knows.refresh steady'.sound.shape chain')).lock []
  · rintro rfl
    refine ⟨.single step fun _ => change.neutral steady.sound fun _ _ eq => (by cases eq),
      fun other loose => ?_⟩
    obtain ⟨loose, flags⟩ := change.loose steady.sound loose
    refine ⟨loose, ?_⟩
    rintro rfl
    have flag := flags _ (List.mem_append_left _ (List.mem_cons_of_mem _ List.mem_cons_self))
    rw [setLogicalPage, isEvacuating_congr (Page.sameOn_setWord32 _ _ _ _ (.inr (by decide))),
      isEvacuating_freshPage] at flag
    cases flag

/-- One round of extending a chain by the next page. -/
theorem extend_spec (steady : Steady mode moment) (free : moment.held = [])
    (chained : moment.accessor.addressing.appendOnly = true) (bound : sequence < sequenceCount)
    (next : mode.Dense → target.toNat = (moment.accessor.chainOf sequence).lastLogical.toNat + 1) :
    Ensures mode (fun _ later => later.held = [] ∧ Steady mode later ∧
      later.accessor.addressing = moment.accessor.addressing ∧ (mode = .solo → ChainRound moment sequence later))
      (Chains.extend sequence target) moment := by
  simp only [Chains.extend]
  refine steady.accessor fun m1 w1 s1 a1 => ?_
  rw [Accessor.chain_eq _ bound, ensures_lift_value]
  refine s1.acquire (fun _ => s1.meta_free (w1.held_eq.trans free)) fun m2 metapage w2 s2 a2 at_meta _ => ?_
  have waits := w1.trans w2
  have accessor2 : m2.accessor = moment.accessor := a2.trans a1
  have held2 : m2.held = [] := waits.held_eq.trans free
  have chained2 : m2.contents.appendOnly = true := by
    have := congrArg Addressing.appendOnly s2.knows.addressing_eq
    rw [accessor2, chained] at this
    exact this.symm
  have knows2 : Knows m2.scene.image m2.contents moment.accessor := accessor2 ▸ s2.knows
  have read := (s2.sound.shape.metaType_of at_meta).2 moment.accessor.index metaBlock
  rw [read, ensures_lift_value]
  have actual : m2.contents.chains[sequence]?.getD .empty = m2.contents.chain sequence := rfl
  rw [actual]
  have ends := s2.sound.shape.chain_ends chained2 bound
  by_cases same : (m2.contents.chain sequence).last = (moment.accessor.chainOf sequence).last
  · rw [if_neg (not_not.mpr same)]
    have known := knows2.chain_eq s2.sound.shape chained2 bound same
    by_cases beyond : target ≤ (m2.contents.chain sequence).lastLogical
    · cases mode with
      | shared rights =>
          rw [if_pos beyond]
          exact ⟨Mode.shared_ne_solo rights, s2.lock _⟩
      | solo =>
          have := next trivial
          rw [known] at this
          exact absurd (UInt32.le_iff_toNat_le.mp beyond) (by omega)
    · rw [if_neg beyond]
      refine (s2.lock (metaBlock :: m2.held)).allocate fun m3 block m4 w3 a3 s3 added a4 held4 => ?_
      have scene3 : m3.scene = m2.scene := (w3.locked (List.cons_ne_nil _ _)).1
      rw [scene3] at added
      have apart := added.ne_meta s2.sound
      have held4 : m4.held = [metaBlock] :=
        held4.trans (w3.held_eq.trans (congrArg (List.cons metaBlock) held2))
      refine added.steady.acquire (fun _ => ⟨Image.lt_of_page? added.at_block, ?_⟩) fun m5 page w5 s5 a5 at5 _ => ?_
      · rw [held4]
        exact fun mem => apart (List.mem_singleton.mp mem)
      have scene5 : m5.scene = m4.scene := (w5.locked (by rw [held4]; exact List.cons_ne_nil _ _)).1
      have free5 : m5.scene.image.page? block = some .zero := by
        rw [scene5]
        exact added.at_block
      obtain rfl := Option.some.inj (at5.symm.trans free5)
      have keeps : m2.scene.image.Keeps m5.scene.image := by
        rw [scene5]
        exact added.keeps
      rw [if_neg (by simp [Page.isNew_zero])]
      refine (lockTail_spec (s5.lock (block :: m5.held)) (List.cons_ne_nil _ _) ?_ ?_).andThen ?_
      · intro valid
        obtain ⟨page, at_last⟩ := s2.sound.shape.exists_tail chained2 bound valid
        exact ⟨page, keeps _ _ at_last, (s2.sound.shape.tail_page chained2 bound at_last).1⟩
      · rw [w5.held_eq, held4]
        intro mem
        by_cases valid : (m2.contents.chain sequence).last = invalidBlock
        · rw [valid] at mem
          rcases List.mem_pair.mp mem with eq | eq
          · exact Image.ne_invalid s5.sound.shape.small free5 eq.symm
          · exact absurd eq (by decide)
        · obtain ⟨page, at_last⟩ := s2.sound.shape.exists_tail chained2 bound valid
          obtain ⟨map, first⟩ := s2.sound.shape.tail_page chained2 bound at_last
          rcases List.mem_pair.mp mem with eq | eq
          · exact map.ne_of_zero (keeps _ _ at_last) free5 eq
          · exact first eq
      rintro found m6 ⟨s6, scene6, accessor6, held6, tail⟩
      have scene6 : m6.scene = m5.scene := scene6
      have accessor6 : m6.accessor = moment.accessor :=
        accessor6.trans (a5.trans (a4.trans accessor2))
      rw [← scene6] at keeps free5
      have contents6 : m6.contents = m2.contents := keeps.contents_eq s2.sound.holds
      have drift6 : Drift mode moment.scene m6.scene := by
        rw [scene6, scene5]
        exact (Drift.of_interferes waits.interferes).trans added.drift
      rw [← contents6] at tail beyond known chained2 ⊢
      rw [← scene6] at tail
      rw [← accessor6]
      have follows : mode.Dense → target.toNat = (m6.contents.chain sequence).lastLogical.toNat + 1 := by
        rw [← known]
        exact next
      have conclude : ∀ later : Moment, (later.held = [] ∧ Steady mode later ∧
          later.accessor = m6.accessor.withChain sequence ((m6.contents.chain sequence).grown block target) ∧
          later.contents.chain sequence = (m6.contents.chain sequence).grown block target ∧
          (mode = .solo → Drift .solo m6.scene later.scene ∧
            ∀ other, later.scene.Loose other → m6.scene.Loose other ∧ other ≠ block)) →
          later.held = [] ∧ Steady mode later ∧ later.accessor.addressing = m6.accessor.addressing ∧
            (mode = .solo → ChainRound moment sequence later) := by
        rintro later ⟨free7, s7, accessor7, chain7, rest⟩
        refine ⟨free7, s7, by rw [accessor7]; rfl, ?_⟩
        rintro rfl
        obtain ⟨drift7, loose7⟩ := rest rfl
        refine ⟨drift6.trans drift7, fun other loose => ?_, ?_, .inr ?_⟩
        · obtain ⟨loose, ne⟩ := loose7 other loose
          rw [scene6, scene5] at loose
          rw [← waits.scene_eq_of_solo]
          exact (added.loose rfl other loose).resolve_right ne
        · rw [accessor7, chain7, Accessor.chainOf_withChain_same bound]
        · rw [chain7, known]
          exact follows trivial
      rcases tail with ⟨rfl, none⟩ | ⟨tailPage, rfl, at_tail⟩
      · refine Ensures.change held6 (Ensures.change held6 ?_)
        exact (logGrowth_spec s6 held6 chained2 bound (UInt32.not_le.mp beyond) follows free5 (keeps _ _ at_meta)
          (.none none) (.swap _ _ _)).mono fun _ => conclude
      · refine Ensures.change held6 (Ensures.bind (Ensures.change held6 (Ensures.change held6 ?_)))
        exact (logGrowth_spec s6 held6 chained2 bound (UInt32.not_le.mp beyond) follows free5 (keeps _ _ at_meta)
          (.some at_tail) (@List.perm_middle _ _ [_, _] [])).mono fun _ => conclude
  · rw [if_pos same]
    have keeps2 : m2.accessor.Keeps (moment.accessor.withChain sequence (m2.contents.chain sequence)) := by
      rw [accessor2]
      refine Accessor.keeps_withChain bound fun known empty => ?_
      rcases knows2.chain chained2 sequence bound with unknown | ⟨-, ne, -⟩
      · exact known unknown
      · exact ne (congrArg Chain.first empty)
    refine Ensures.remember (List.cons_ne_nil _ _) (fun _ => keeps2) (Ensures.locked (List.cons_ne_nil _ _)
      ⟨rfl, (s2.learn (knows2.refresh s2.sound.shape rfl)).lock [], rfl, ?_⟩)
    rintro rfl
    refine ⟨by rw [waits.scene_eq_of_solo]; exact .refl _ _, fun block loose => ?_,
      Accessor.chainOf_withChain_same bound _,
      .inl ⟨?_, ?_⟩⟩
    · rwa [show m2.scene = _ from waits.scene_eq_of_solo] at loose
    · rw [← contents_solo waits]
      exact fun eq => same (congrArg Chain.last eq).symm
    · change _ ≤ (m2.contents.chain sequence).lastLogical
      rcases knows2.chain chained2 sequence bound with known | ⟨-, -, inside⟩
      · rw [known]
        exact UInt32.zero_le
      · rcases ends with ⟨-, none⟩ | ⟨-, -, greatest⟩
        · exact absurd inside (none _ _)
        · exact greatest _ _ inside

/-- Extending a chain page by page. -/
theorem extendChainTo_spec {rounds : Nat} (steady : Steady mode moment) (free : moment.held = [])
    (chained : moment.accessor.addressing.appendOnly = true) (bound : sequence < sequenceCount)
    (at_end : moment.accessor.AtEnd sequence)
    (costs : mode = .solo → ∃ count, moment.ChainCosts sequence target count ∧ count < rounds) :
    Ensures mode (fun _ later => later.held = [] ∧ Steady mode later ∧
      later.accessor.addressing = moment.accessor.addressing ∧
      (mode = .solo → Drift .solo moment.scene later.scene ∧
        (∀ block, later.scene.Loose block → moment.scene.Loose block) ∧
        later.accessor.AtEnd sequence ∧ target ≤ later.accessor.position.logical))
      (Coverage.extendChainTo sequence target rounds) moment := by
  induction rounds generalizing moment with
  | zero =>
      cases mode with
      | shared rights => exact ⟨Mode.shared_ne_solo rights, steady⟩
      | solo =>
          obtain ⟨count, -, lt⟩ := costs rfl
          exact absurd lt (Nat.not_lt_zero _)
  | succ rounds ih =>
      simp only [Coverage.extendChainTo]
      refine steady.accessor fun m1 w1 s1 a1 => ?_
      split
      · rename_i reached
        refine ⟨w1.held_eq.trans free, s1, by rw [a1], ?_⟩
        rintro rfl
        rw [a1, w1.scene_eq_of_solo]
        exact ⟨.refl _ _, fun _ loose => loose, at_end, reached⟩
      · rename_i short
        have below := UInt32.not_le.mp short
        refine s1.poll fun m2 w2 s2 a2 => ?_
        have waits := w1.trans w2
        have accessor2 : m2.accessor = moment.accessor := a2.trans a1
        refine (extend_spec s2 (waits.held_eq.trans free) (by rw [accessor2]; exact chained) bound
          fun _ => ?_).andThen ?_
        · have logical := congrArg ChainPosition.logical at_end
          have lt := UInt32.lt_iff_toNat_lt.mp below
          have := target.toNat_lt
          rw [accessor2, UInt32.toNat_add, UInt32.toNat_one, Nat.mod_eq_of_lt (by omega), logical]
        rintro - m3 ⟨free3, s3, addressing3, round⟩
        rw [accessor2] at addressing3
        have kind3 := (congrArg Addressing.appendOnly (s3.knows.addressing_eq.symm.trans addressing3)).trans chained
        refine (toEnd_spec s3 kind3 bound).andThen ?_
        rintro - m4 ⟨looks4, position4⟩
        have addressing4 : m4.accessor.addressing = moment.accessor.addressing :=
          looks4.cache.addressing_eq.trans addressing3
        refine (ih looks4.steady (looks4.waits.held_eq.trans free3) (by rw [addressing4]; exact chained)
          ?_ (fun solo => ?_)).mono ?_
        · rw [Accessor.AtEnd, position4, looks4.cache.chainOf_eq]
        · subst solo
          obtain ⟨count, ⟨stale, is_stale, enough⟩, lt⟩ := costs rfl
          obtain ⟨-, -, current, progress⟩ := round rfl
          have logical := congrArg ChainPosition.logical at_end
          simp only at logical
          rw [← contents_solo waits] at is_stale
          rw [accessor2] at progress
          have below := UInt32.lt_iff_toNat_lt.mp below
          have costs4 : target.toNat - (m3.contents.chain sequence).lastLogical.toNat + 0 ≤ count - 1 := by
            rw [logical] at enough below
            rcases progress with ⟨behind, grown⟩ | grown
            · have := is_stale behind
              have := UInt32.le_iff_toNat_le.mp grown
              omega
            · omega
          refine ⟨count - 1, ⟨0, fun ne => absurd ?_ ne, ?_⟩, ?_⟩
          · rw [looks4.cache.chainOf_eq, contents_solo looks4.waits, current]
          · rw [position4, current]
            exact costs4
          · rw [logical] at enough below
            rcases progress with ⟨behind, -⟩ | -
            · have := is_stale behind
              omega
            · omega
        · rintro - m5 ⟨free5, s5, addressing5, rest⟩
          refine ⟨free5, s5, addressing5.trans addressing4, ?_⟩
          rintro rfl
          obtain ⟨drift5, loose5, at_end5, reached⟩ := rest rfl
          obtain ⟨drift3, loose3, -, -⟩ := round rfl
          rw [looks4.waits.scene_eq_of_solo] at drift5 loose5
          rw [waits.scene_eq_of_solo] at drift3 loose3
          exact ⟨drift3.trans drift5, fun block loose => loose3 block (loose5 block loose), at_end5, reached⟩

end Chains

/-! ## Covering a block -/

/-- With so many rounds the range map can be extended until it has the entry of a table block. -/
def Addressing.roundsFor (addressing : Addressing) (heapBlock : BlockNumber) : Nat :=
  2 * (addressing.target heapBlock).toNat + 3

theorem Addressing.roundsFor_le (addressing : Addressing) (heapBlock : BlockNumber) :
    addressing.roundsFor heapBlock ≤ enoughRounds := by
  have small := addressing.target_le heapBlock
  simp only [roundsFor, enoughRounds]
  omega

namespace Coverage

/-- As `ensureChained`, with rounds of their own for the extensions of the chain. -/
def ensureChainedWithin (rounds extensions : Nat) (addressing : Addressing) (heapBlock : BlockNumber) :
    Procedure BlockNumber := do
  match ← RangeMap.lookup rounds heapBlock with
  | some block => return block
  | none =>
      let sequence := sequenceOf heapBlock
      let target ← addressing.logicalPage heapBlock
      Chains.toEnd sequence
      extendChainTo sequence target extensions
      match ← RangeMap.lookup rounds heapBlock with
      | some block => return block
      | none =>
          let accessor ← Procedure.accessor
          Procedure.report (accessor.corrupted accessor.position.page
            s!"revmap chain of block sequence {sequence} has no logical page {target.toNat}")

/-- As `ensure`, with rounds of their own for the extensions of the range map. -/
def ensureWithin (rounds extensions : Nat) (heapBlock : BlockNumber) : Procedure BlockNumber := do
  let addressing := (← Procedure.accessor).addressing
  if addressing.appendOnly then ensureChainedWithin rounds extensions addressing heapBlock
  else
    let target ← addressing.mapBlock heapBlock
    ensurePlain rounds target extensions

end Coverage

section Covering

variable {mode : Mode} {moment : Moment} {heapBlock : BlockNumber} {rounds extensions : Nat}

/-- An accessor at the end of a chain that reaches the number of an entry finds it. -/
theorem Steady.covered_of_atEnd (steady : Steady .solo moment)
    (chained : moment.accessor.addressing.appendOnly = true)
    (at_end : moment.accessor.AtEnd (sequenceOf heapBlock))
    (reached : moment.accessor.addressing.target heapBlock ≤ moment.accessor.position.logical) :
    ¬ moment.accessor.Blind heapBlock ∧ ∃ block, Covers moment.scene.image moment.contents heapBlock block := by
  have kind : moment.contents.appendOnly = true :=
    (congrArg Addressing.appendOnly steady.knows.addressing_eq).symm.trans chained
  have bound := sequenceOf_lt heapBlock
  have ne := moment.accessor.addressing.target_ne_zero heapBlock
  have position : moment.accessor.position = _ := at_end
  have logical : moment.accessor.position.logical ≠ 0 := by
    intro zero
    rw [zero] at reached
    exact ne (UInt32.le_antisymm reached UInt32.zero_le)
  have known : moment.accessor.chainOf (sequenceOf heapBlock) ≠ .empty := by
    intro empty
    rw [position, empty] at logical
    exact logical rfl
  constructor
  · rw [Accessor.Blind, if_pos chained]
    split
    · exact known
    · exact logical
  · rcases steady.knows.chain kind _ bound with empty | ⟨-, -, inside⟩
    · exact absurd empty known
    · rcases steady.sound.shape.chain_ends kind bound with ⟨-, none⟩ | ⟨-, -, greatest⟩
      · exact absurd inside (none _ _)
      · have le := greatest _ _ inside
        rw [position] at reached
        obtain ⟨block, inside'⟩ := steady.gapless trivial _ bound _ ne (UInt32.le_trans reached le)
        rw [steady.knows.addressing_eq] at inside'
        exact ⟨block, (Steady.covers_iff_inChain kind).mpr inside'⟩

/-- Extending the chain of a table block until it has its entry. -/
theorem ensureChainedWithin_spec (heapBlock : BlockNumber) (steady : Steady mode moment) (free : moment.held = [])
    (chained : moment.accessor.addressing.appendOnly = true)
    (clean : mode = .solo → ∀ block, ¬ moment.scene.Loose block)
    (fuel : mode = .solo →
      enoughRounds ≤ rounds ∧ moment.accessor.addressing.roundsFor heapBlock ≤ extensions) :
    Ensures mode (fun reached later => later.held = [] ∧ Steady mode later ∧
      later.accessor.addressing = moment.accessor.addressing ∧
      Covers later.scene.image later.contents heapBlock reached ∧
      (mode = .solo → Drift .solo moment.scene later.scene ∧ (∀ block, ¬ later.scene.Loose block) ∧
        later.accessor.Reaches heapBlock))
      (Coverage.ensureChainedWithin rounds extensions moment.accessor.addressing heapBlock) moment := by
  have valid : moment.accessor.addressing.Valid := by
    rw [steady.knows.addressing_eq]
    exact steady.sound.shape.valid
  have bound := sequenceOf_lt heapBlock
  simp only [Coverage.ensureChainedWithin]
  refine (lookup_spec heapBlock steady (Moment.holdsRegular_of_free free) fun solo => (fuel solo).1).andThen ?_
  rintro found m1 ⟨looks1, found1, -, -⟩
  have free1 := looks1.waits.held_eq.trans free
  have addressing1 := looks1.cache.addressing_eq
  cases found with
  | some block =>
      obtain ⟨covered, reaches⟩ := found1 block rfl
      refine ⟨free1, looks1.steady, addressing1, covered, ?_⟩
      rintro rfl
      rw [looks1.waits.scene_eq_of_solo]
      exact ⟨.refl _ _, clean rfl, reaches⟩
  | none =>
      simp only
      rw [Addressing.logicalPage_eq valid chained, ensures_lift_ok]
      have kind1 := (congrArg Addressing.appendOnly (looks1.steady.knows.addressing_eq.symm.trans addressing1)).trans
        chained
      refine (toEnd_spec looks1.steady kind1 bound).andThen ?_
      rintro - m2 ⟨looks2, position2⟩
      have looks2' := looks1.trans looks2
      have free2 := looks2'.waits.held_eq.trans free
      have addressing2 := looks2'.cache.addressing_eq
      refine (extendChainTo_spec looks2.steady free2 (by rw [addressing2]; exact chained) bound
        ?_ (fun solo => ?_)).andThen ?_
      · rw [Accessor.AtEnd, position2, looks2.cache.chainOf_eq]
      · have := (fuel solo).2
        simp only [Addressing.roundsFor] at this
        exact ⟨(moment.accessor.addressing.target heapBlock).toNat + 1,
          ⟨1, fun _ => Nat.le_refl _, by omega⟩, by omega⟩
      rintro - m3 ⟨free3, s3, addressing3, rest⟩
      have addressing3 := addressing3.trans addressing2
      refine (lookup_spec heapBlock s3 (Moment.holdsRegular_of_free free3) fun solo => (fuel solo).1).andThen ?_
      rintro found m4 ⟨looks4, found4, none4, -⟩
      cases found with
      | some block =>
          obtain ⟨covered, reaches⟩ := found4 block rfl
          refine ⟨looks4.waits.held_eq.trans free3, looks4.steady, looks4.cache.addressing_eq.trans addressing3,
            covered, ?_⟩
          rintro rfl
          obtain ⟨drift, loose, -, -⟩ := rest rfl
          rw [looks2'.waits.scene_eq_of_solo] at drift loose
          rw [looks4.waits.scene_eq_of_solo]
          exact ⟨drift, fun block looseBlock => clean rfl block (loose block looseBlock), reaches⟩
      | none =>
          refine looks4.steady.accessor fun m5 _ s5 _ => ?_
          cases mode with
          | shared rights => exact ⟨Mode.shared_ne_solo rights, s5⟩
          | solo =>
              obtain ⟨-, -, at_end, reached⟩ := rest rfl
              rw [← addressing3] at reached
              obtain ⟨sighted, block, covered⟩ :=
                s3.covered_of_atEnd (by rw [addressing3]; exact chained) at_end reached
              rcases none4 rfl rfl with blind | absent
              · exact absurd blind sighted
              · exact absurd covered (absent block)

/-- Extending the range map until it has the entry of a table block. Alone, the rounds that the block
needs are enough. -/
theorem ensureWithin_spec (steady : Steady mode moment) (free : moment.held = [])
    (clean : mode = .solo → ∀ block, ¬ moment.scene.Loose block)
    (fuel : mode = .solo →
      enoughRounds ≤ rounds ∧ moment.accessor.addressing.roundsFor heapBlock ≤ extensions) :
    Ensures mode (fun reached later => later.held = [] ∧ Steady mode later ∧
      later.accessor.addressing = moment.accessor.addressing ∧
      Covers later.scene.image later.contents heapBlock reached ∧
      (mode = .solo → Drift .solo moment.scene later.scene ∧ (∀ block, ¬ later.scene.Loose block) ∧
        later.accessor.Reaches heapBlock))
      (Coverage.ensureWithin rounds extensions heapBlock) moment := by
  have addressing := steady.knows.addressing_eq
  have valid : moment.accessor.addressing.Valid := by
    rw [addressing]
    exact steady.sound.shape.valid
  simp only [Coverage.ensureWithin]
  refine steady.accessor fun m1 w1 s1 a1 => ?_
  have clean1 : mode = .solo → ∀ block, ¬ m1.scene.Loose block := by
    rintro rfl
    rw [w1.scene_eq_of_solo]
    exact clean rfl
  split
  · rename_i chained
    have chained1 : m1.accessor.addressing.appendOnly = true := by
      rw [a1]
      exact chained
    have ensured := ensureChainedWithin_spec heapBlock s1 (w1.held_eq.trans free) chained1 clean1 (a1 ▸ fuel)
    rw [a1] at ensured
    refine ensured.mono ?_
    rintro reached m2 ⟨free2, s2, addressing2, covered, rest⟩
    refine ⟨free2, s2, addressing2, covered, ?_⟩
    rintro rfl
    rw [← w1.scene_eq_of_solo]
    exact rest rfl
  · rename_i plain
    have plain : moment.accessor.addressing.appendOnly = false := (Bool.not_eq_true _).mp plain
    rw [Addressing.mapBlock_eq valid plain, ensures_lift_ok]
    refine (ensurePlain_spec s1 (w1.held_eq.trans free) (by rw [a1]; exact plain)
      (fun solo block loose => absurd loose (clean1 solo block)) (fun solo => (fuel solo).1)
      (fun solo => ?_)).mono ?_
    · have := (fuel solo).2
      simp only [Addressing.roundsFor] at this
      refine ⟨2 * (moment.accessor.addressing.target heapBlock).toNat + 2,
        ⟨1, 1, fun _ => Nat.le_refl _, fun _ => Nat.le_refl _, by omega⟩, by omega⟩
    · rintro reached m2 ⟨free2, s2, addressing2, rfl, le, rest⟩
      rw [a1] at addressing2
      refine ⟨free2, s2, addressing2, ?_, ?_⟩
      · have kind : m2.contents.appendOnly = false := by
          have := congrArg Addressing.appendOnly s2.knows.addressing_eq
          rw [addressing2, plain] at this
          exact this.symm
        rw [Covers, kind, ← s2.knows.addressing_eq, addressing2]
        exact ⟨rfl, UInt32.le_trans le s2.knows.last_le⟩
      · rintro rfl
        obtain ⟨drift, clean2⟩ := rest rfl
        rw [w1.scene_eq_of_solo] at drift
        refine ⟨drift, clean2, ?_⟩
        rw [Accessor.Reaches, addressing2, plain]
        exact le

/-- Extending the range map until it has the entry of a table block. -/
theorem ensure_spec (steady : Steady mode moment) (free : moment.held = [])
    (clean : mode = .solo → ∀ block, ¬ moment.scene.Loose block) (fuel : mode = .solo → enoughRounds ≤ rounds) :
    Ensures mode (fun reached later => later.held = [] ∧ Steady mode later ∧
      later.accessor.addressing = moment.accessor.addressing ∧
      Covers later.scene.image later.contents heapBlock reached ∧
      (mode = .solo → Drift .solo moment.scene later.scene ∧ (∀ block, ¬ later.scene.Loose block) ∧
        later.accessor.Reaches heapBlock))
      (Coverage.ensure rounds heapBlock) moment :=
  ensureWithin_spec steady free clean fun solo =>
    ⟨fuel solo, Nat.le_trans (moment.accessor.addressing.roundsFor_le heapBlock) (fuel solo)⟩

end Covering

end Warehouse.RangeIndex
