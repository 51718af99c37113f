import Warehouse.Proofs.RangeIndex.Caches

/-! # Inserting where entries are damaged

The pages of the index are in order here, but the entries of the range map may point anywhere, and summaries may lie
where no entry points. An operation that stores a summary reads the entry of the range and tries again when it finds
that another one got in between. That it does so forever, although nobody else is there, is possible in one case:
the entry points past the line pointers of a page. Then there is no summary to be moved, and the entry is not free. -/

namespace Warehouse.RangeIndex

/-! ## Locking a page with room -/

/-- The last page of the index takes a tuple of the given length. -/
structure Image.Hosts (image : Image) (excluded : Option BlockNumber) (length : Nat) (block : BlockNumber)
    (page : Page) : Prop where
  several : 1 < image.size
  last : block.toNat + 1 = image.size
  other : excluded ≠ some block
  at_block : image.page? block = some page
  regular : isRegular page = true
  takes : isEvacuating page = false
  fits : page.fits length = true

/-- No page is locked but the excluded one, which is a regular page. -/
structure World.HoldsOnly (world : World) (excluded : Option BlockNumber) : Prop where
  locked : ∀ block ∈ world.held, excluded = some block
  regular : ∀ block, excluded = some block → ∃ page, world.image.page? block = some page ∧ Regular page

/-- A page with room is locked. Others that were there are as before, and the range map is the same. -/
structure World.Sites (world : World) (excluded : Option BlockNumber) (length : Nat) (site : Placement.Site)
    (later : World) : Prop where
  alone : later.relation.interference = .none
  accessor_eq : later.accessor = world.accessor
  held_eq : later.held = site.block :: world.held
  quiet : Quiet world.image later.image
  keeps : world.image.Keeps later.image
  at_block : later.image.page? site.block = some site.page
  regular : Regular site.page
  fits : site.page.fits length = true
  /-- The same page has room the next time. -/
  hosts : ∃ page, later.image.Hosts excluded length site.block page

section Sites

variable {world later : World} {contents : Metapage} {excluded : Option BlockNumber} {length rounds : Nat}
  {site : Placement.Site}

theorem World.blockCount_eq (small : world.image.size < 2 ^ 32) :
    world.relation.blockCount.toNat = world.image.size := by
  have size : world.relation.buffers.size = world.image.size := (size_pagesOf world.relation).symm
  rw [Relation.blockCount, size]
  exact UInt32.toNat_ofNat_of_lt' small

/-- No page is locked at all. -/
theorem World.holdsOnly_none (free : world.held = []) : world.HoldsOnly none :=
  ⟨fun block mem => absurd mem (World.unlocked_of_free free block), nofun⟩

/-- The only page that is locked is a regular one. -/
theorem World.holdsOnly_old {page : Page} (at_block : world.image.page? block = some page) (regular : Regular page) :
    World.HoldsOnly { world with held := [block] } (some block) := by
  refine ⟨fun other mem => congrArg some (List.mem_singleton.mp mem).symm, ?_⟩
  rintro other ⟨⟩
  exact ⟨page, at_block, regular⟩

/-- Locking the last page of the index, if it has room. -/
theorem lockLast_results (alone : world.relation.interference = .none) (small : world.image.size < 2 ^ 32)
    (holds : world.HoldsOnly excluded) :
    Results (fun _ _ => False)
      (fun found later => match found with
        | some site => world.image.Hosts excluded length site.block site.page ∧
            later = { world with held := site.block :: world.held }
        | none => later = world ∧ ∀ block page, ¬ world.image.Hosts excluded length block page)
      (Placement.lockLast excluded length) world := by
  have count := World.blockCount_eq small
  simp only [Placement.lockLast, results_countBlocks]
  generalize world.relation.blockCount = blocks at count
  have last_eq : 1 < blocks.toNat → (blocks - 1).toNat + 1 = world.image.size := by
    intro several
    have one : (1 : UInt32).toNat = 1 := rfl
    have le : (1 : UInt32) ≤ blocks := UInt32.le_iff_toNat_le.mpr (by omega)
    rw [UInt32.toNat_sub_of_le _ _ le, ← count]
    omega
  split
  · rename_i none_last
    refine ⟨rfl, fun block page hosts => ?_⟩
    rcases none_last with few | same
    · have := UInt32.le_iff_toNat_le.mp few
      have : (1 : UInt32).toNat = 1 := rfl
      have := hosts.several
      omega
    · have several : 1 < blocks.toNat := by
        rw [count]
        exact hosts.several
      have := last_eq several
      have := hosts.last
      refine hosts.other (same.trans (congrArg some (UInt32.toNat_inj.mp ?_)))
      omega
  · rename_i last_exists
    obtain ⟨many, other⟩ := not_or.mp last_exists
    have several : 1 < blocks.toNat := UInt32.lt_iff_toNat_lt.mp (UInt32.not_le.mp many)
    have last_eq := last_eq several
    generalize blocks - 1 = last at other last_eq
    obtain ⟨page, at_last⟩ := Image.exists_page? (show last.toNat < world.image.size by omega)
    have unlocked : last ∉ world.held := fun mem => other (holds.locked last mem)
    rw [results_pin alone at_last, results_acquire unlocked at_last]
    split
    · rename_i takes
      simp only [Bool.and_eq_true, Bool.not_eq_true'] at takes
      obtain ⟨⟨regular, takes⟩, fits⟩ := takes
      exact ⟨⟨by omega, last_eq, other, at_last, regular, takes, fits⟩, rfl⟩
    · rename_i full
      rw [results_release, results_pure, List.erase_cons_head]
      refine ⟨rfl, fun block page' hosts => ?_⟩
      have := hosts.last
      obtain rfl : block = last := UInt32.toNat_inj.mp (by omega)
      obtain rfl := Option.some.inj (at_last.symm.trans hosts.at_block)
      exact full (by simp [hosts.regular, hosts.takes, hosts.fits])

/-- A new page was added behind the others and is locked. -/
theorem World.sites_fresh {block : BlockNumber} (shape : Geometry world.image contents)
    (room : world.image.size + 1 < 2 ^ 32) (short : length ≤ maxTupleSize) (holds : world.HoldsOnly excluded)
    (behind : block.toNat = world.image.size) (alone : later.relation.interference = .none)
    (accessor_eq : later.accessor = world.accessor) (held_eq : later.held = block :: world.held)
    (image_eq : later.image = Image.put (world.image.push .zero) block (freshPage regularType)) :
    world.Sites excluded length ⟨block, freshPage regularType, true⟩ later := by
  obtain ⟨metapage, at_meta, -⟩ := shape.metapage
  have some_pages := Image.lt_of_page? at_meta
  have apart : block ≠ metaBlock := by
    rintro rfl
    omega
  have quiet := shape.quiet_grow room
  have at_new : Image.page? (world.image.push .zero) block = some .zero := Image.page?_push_new behind
  have at_block := Image.page?_put_same (freshPage regularType) at_new
  have keeps : world.image.Keeps (Image.put (world.image.push .zero) block (freshPage regularType)) := by
    intro other page at_other
    have inside := Image.lt_of_page? at_other
    have ne : other ≠ block := by
      rintro rfl
      omega
    rwa [Image.page?_put_other ne, Image.page?_push_old inside]
  have size : (Image.put (world.image.push .zero) block (freshPage regularType)).size = world.image.size + 1 := by
    rw [Image.size_put, Array.size_push]
  have last : block.toNat + 1 = (Image.put (world.image.push .zero) block (freshPage regularType)).size := by omega
  refine ⟨alone, accessor_eq, held_eq, ?_, ?_, ?_, regular_freshPage, fits_freshPage short, ⟨freshPage regularType, ?_⟩⟩
  all_goals rw [image_eq]
  · exact quiet.trans ((quiet.map.geometry shape).quiet_format apart at_new)
  · exact keeps
  · exact at_block
  · refine ⟨by omega, last, ?_, at_block, regular_freshPage.isRegular, isEvacuating_freshPage _, fits_freshPage short⟩
    intro same
    obtain ⟨page, at_excluded, -⟩ := holds.regular block same
    have := Image.lt_of_page? at_excluded
    omega

/-- A page that holds a new item is locked, which is the last page of the index or a new one. -/
theorem lockSite_results (alone : world.relation.interference = .none) (shape : Geometry world.image contents)
    (room : (∀ block page, ¬ world.image.Hosts excluded length block page) → world.image.size + 1 < 2 ^ 32)
    (holds : world.HoldsOnly excluded) (short : length ≤ maxTupleSize) :
    Results (fun _ _ => False) (fun site later => world.Sites excluded length site later)
      (Placement.lockSite excluded length (rounds + 1)) world := by
  simp only [Placement.lockSite]
  apply (lockLast_results alone shape.small holds).andThen
  intro found later last
  cases found with
  | some site =>
      obtain ⟨hosts, rfl⟩ := last
      have regular := shape.regular_of hosts.at_block hosts.regular
      exact ⟨alone, rfl, rfl, shape.quiet_refl, .refl _, hosts.at_block, regular, hosts.fits, ⟨_, hosts⟩⟩
  | none =>
      obtain ⟨rfl, full⟩ := last
      have room := room full
      have count := World.blockCount_eq shape.small
      have size : later.relation.buffers.size = later.image.size := (size_pagesOf later.relation).symm
      simp only
      rw [results_allocate alone (by omega)]
      generalize later.relation.blockCount = block at count
      let grown : World := { later with relation := later.relation.grow }
      have image_eq : grown.image = later.image.push .zero := pagesOf_grow
      have at_new : grown.image.page? block = some .zero := by
        rw [image_eq]
        exact Image.page?_push_new count
      have unlocked : block ∉ grown.held := by
        intro mem
        obtain ⟨page, at_block, -⟩ := holds.regular block (holds.locked block mem)
        have := Image.lt_of_page? at_block
        omega
      change Results _ _ (Procedure.acquire block >>= _) grown
      rw [results_acquire unlocked at_new, if_pos Page.isNew_zero, results_write, results_pure]
      refine World.sites_fresh shape room short holds count alone rfl rfl ?_
      exact pagesOf_setPage.trans (congrArg (Image.put · block (freshPage regularType)) pagesOf_grow)

end Sites

/-! ## Locking the range map page of a range -/

/-- The range map page is locked. Nothing else has changed but the accessor, which is where the entry is. -/
structure World.Locks (world : World) (contents : Metapage) (heapBlock block : BlockNumber) (later : World) : Prop where
  same : later = { world with accessor := later.accessor, held := block :: world.held }
  knows : Knows world.image contents later.accessor
  reaches : later.accessor.Reaches heapBlock

section Ranges

variable {world later : World} {contents : Metapage} {heapBlock block : BlockNumber} {page : Page} {length rounds : Nat}
  {excluded : Option BlockNumber} {site : Placement.Site}

theorem World.Locks.image_eq (locks : world.Locks contents heapBlock block later) : later.image = world.image := by
  rw [locks.same]
  rfl

/-- All locks are given back. -/
theorem World.Locks.released (locks : world.Locks contents heapBlock block later) (informed : world.Informed contents) :
    World.Informed { later with held := [] } contents := by
  rw [locks.same]
  exact ⟨informed.alone, fun _ _ _ _ => List.not_mem_nil, informed.shape, locks.knows⟩

/-- An accessor that is where the entry of a table block is can find it. -/
theorem Accessor.Reaches.sighted {accessor : Accessor} (reaches : accessor.Reaches heapBlock) :
    ¬ accessor.Blind heapBlock := by
  rw [Reaches] at reaches
  rw [Blind]
  split at reaches
  · rename_i chained
    obtain ⟨seq, logical⟩ := reaches
    have ne := accessor.addressing.target_ne_zero heapBlock
    rw [if_pos chained, seq, logical, if_neg (by simp)]
    exact ne
  · rename_i plain
    rw [if_neg plain]
    exact UInt32.not_lt.mpr reaches

theorem World.Sites.informed (sites : world.Sites excluded length site later) (informed : world.Informed contents) :
    later.Informed contents where
  alone := sites.alone
  unlocked := by
    intro block page at_block map mem
    rw [sites.held_eq] at mem
    rcases List.mem_cons.mp mem with rfl | mem
    · obtain rfl := Option.some.inj (sites.at_block.symm.trans at_block)
      exact sites.regular.not_map map
    · obtain ⟨page', at_block', map'⟩ := sites.quiet.map.back block page at_block map
      exact informed.unlocked block page' at_block' map' mem
  shape := sites.quiet.map.geometry informed.shape
  knows := by
    rw [sites.accessor_eq]
    exact informed.knows.grow (.of_sameMap sites.quiet.map sites.quiet.size_le)

/-- Keeping a page in memory changes nothing that the accessor knows. -/
theorem World.Informed.keeping (informed : world.Informed contents) (block : BlockNumber) :
    world.Repositions contents (world.keeping block) :=
  informed.moved ⟨rfl, rfl, rfl⟩ rfl informed.knows.position

/-- Looking up the range map page of a range where the accessor is. -/
theorem lookup_reaches (informed : world.Informed contents) (reaches : world.accessor.Reaches heapBlock)
    (covered : Covers world.image contents heapBlock block) (fuel : 2 ^ 32 < rounds) :
    Results (fun _ _ => False)
      (fun found later => found = some block ∧ world.Repositions contents later ∧ later.accessor.Reaches heapBlock)
      (RangeMap.lookup rounds heapBlock) world := by
  apply (lookup_results informed fuel).mono _ fun _ _ => id
  rintro found later ⟨turns, present, absent⟩
  cases found with
  | some other =>
      obtain ⟨covered', reaches'⟩ := present other rfl
      exact ⟨congrArg some (informed.shape.covers_unique covered' covered), turns, reaches'⟩
  | none =>
      obtain blind | uncovered := absent rfl
      · exact absurd blind reaches.sighted
      · exact absurd covered (uncovered block)

theorem lockPage_results (informed : world.Informed contents) (reaches : world.accessor.Reaches heapBlock)
    (covered : Covers world.image contents heapBlock block) (at_block : world.image.page? block = some page)
    (fuel : 2 ^ 32 < rounds) :
    Results (fun _ _ => False) (fun found later => found = (block, page) ∧ world.Locks contents heapBlock block later)
      (RangeMap.lockPage rounds heapBlock) world := by
  obtain ⟨page', at_block', map⟩ := informed.shape.covers_page covered
  obtain rfl := Option.some.inj (at_block'.symm.trans at_block)
  simp only [RangeMap.lockPage]
  apply (lookup_reaches informed reaches covered fuel).andThen
  rintro - later ⟨rfl, turns, reaches'⟩
  have informed' := turns.informed informed
  rw [← turns.image_eq] at at_block
  have unlocked : block ∉ (later.keeping block).held := informed'.unlocked block _ at_block map
  have at_block' : (later.keeping block).image.page? block = some page' := at_block
  simp only
  rw [results_pinCurrent informed'.alone at_block, results_acquire unlocked at_block', if_pos (isMap_iff.mpr map.kind),
    results_pure]
  have kept := turns.trans (informed'.keeping block)
  refine ⟨rfl, ?_, kept.knows, reaches'⟩
  rw [turns.same]
  rfl

/-- Once a page with room is locked, the range map page is. Its entry is as before. -/
theorem World.Sites.lockPage_results (sites : world.Sites excluded length site later)
    (informed : world.Informed contents) (reaches : world.accessor.Reaches heapBlock)
    (covered : Covers world.image contents heapBlock block) (fuel : 2 ^ 32 < rounds) :
    Results (fun _ _ => False)
      (fun found last => found.1 = block ∧ later.Locks contents heapBlock block last ∧
        entryIn world.image block (contents.addressing.slot heapBlock) =
          if (entryAt found.2 (contents.addressing.slot heapBlock)).isValid then
            some (entryAt found.2 (contents.addressing.slot heapBlock))
          else none)
      (RangeMap.lockPage rounds heapBlock) later := by
  have informed' := sites.informed informed
  have covered' := sites.quiet.map.covers.mpr covered
  have reaches' : later.accessor.Reaches heapBlock := sites.accessor_eq ▸ reaches
  obtain ⟨page, at_block, map⟩ := informed'.shape.covers_page covered'
  apply (RangeIndex.lockPage_results informed' reaches' covered' at_block fuel).mono _ fun _ _ => id
  rintro - last ⟨rfl, locks⟩
  refine ⟨rfl, locks, (sites.quiet.entries _ _).symm.trans ?_⟩
  exact entryIn_of_map at_block map (contents.addressing.slot_lt heapBlock)

end Ranges

/-! ## Looking for a summary that entries may not lead to -/

/-- The entry of a range points past the line pointers of a regular page. -/
inductive Image.Dangles (image : Image) (contents : Metapage) (heapBlock : BlockNumber) : Prop
  | intro {block : BlockNumber} {place : ItemPointer} {page : Page} (covered : Covers image contents heapBlock block)
      (entry : entryIn image block (contents.addressing.slot heapBlock) = some place)
      (at_place : image.page? place.block = some page) (regular : isRegular page = true)
      (past : page.maxOffset < place.offset.toNat)

/-- What there is where the entry of a range points. -/
inductive Image.Leads (image : Image) (contents : Metapage) (heapBlock : BlockNumber) : Option FoundSummary → Prop
  | free {block : BlockNumber} (covered : Covers image contents heapBlock block)
      (entry : entryIn image block (contents.addressing.slot heapBlock) = none) : Leads image contents heapBlock none
  | nowhere (dangles : image.Dangles contents heapBlock) : Leads image contents heapBlock none
  | there {block : BlockNumber} {page : Page} {found : FoundSummary} (covered : Covers image contents heapBlock block)
      (entry : entryIn image block (contents.addressing.slot heapBlock) = some found.place)
      (at_place : image.page? found.place.block = some page) (regular : isRegular page = true)
      (summary : summaryOn page found.place.offset = some found.summary)
      (heapBlock_eq : found.summary.heapBlock = heapBlock) : Leads image contents heapBlock (some found)

section Finding

variable {world later : World} {contents : Metapage} {heapBlock block : BlockNumber} {page : Page} {index rounds : Nat}

/-- An entry that did not lead to the summary of the range is damaged. -/
theorem findFrom_damaged {place : ItemPointer} (informed : world.Informed contents)
    (at_block : world.image.page? block = some page) (map : MapPage page) (bound : index < entriesPerPage)
    (same : entryAt page index = place) (valid : place.isValid = true) :
    Results (fun failure _ => ∃ cause, failure = .error cause) (fun _ _ => False)
      (RangeMap.findFrom heapBlock block index (some place) (rounds + 1)) world := by
  have unlocked := informed.unlocked block page at_block map
  rw [RangeMap.findFrom, results_poll informed.knows.running,
    results_readEntry informed.alone unlocked at_block (isMap_iff.mpr map.kind) bound, same, if_neg (by simp [valid]),
    if_pos rfl, results_accessor, results_report_bind]
  exact ⟨_, rfl⟩

/-- Following the entry of a range. -/
theorem findFrom_results (informed : world.Informed contents) (free : world.held = [])
    (covered : Covers world.image contents heapBlock block) :
    Results (fun failure _ => (∃ cause, failure = .error cause) ∧ ¬ world.image.Dangles contents heapBlock)
      (fun found later => later = world.keeping block ∧ world.image.Leads contents heapBlock found)
      (RangeMap.findFrom heapBlock block (contents.addressing.slot heapBlock) none (rounds + 2)) world := by
  obtain ⟨mapPage, at_map, map⟩ := informed.shape.covers_page covered
  have bound := contents.addressing.slot_lt heapBlock
  have unlocked := informed.unlocked block mapPage at_map map
  rw [RangeMap.findFrom, results_poll informed.knows.running,
    results_readEntry informed.alone unlocked at_map (isMap_iff.mpr map.kind) bound]
  have informed' := (informed.keeping block).informed informed
  generalize place_eq : entryAt mapPage (contents.addressing.slot heapBlock) = place
  have entry : entryIn world.image block (contents.addressing.slot heapBlock) =
      if place.isValid then some place else none := by
    rw [entryIn_of_map at_map map bound, place_eq]
  split
  · rename_i invalid
    exact ⟨rfl, .free covered (entry.trans (if_neg (by simpa using invalid)))⟩
  rename_i valid
  have valid : place.isValid = true := by simpa using valid
  rw [if_pos valid] at entry
  have sound_of : (∀ page, world.image.page? place.block = some page → isRegular page = true →
      ¬ page.maxOffset < place.offset.toNat) → ¬ world.image.Dangles contents heapBlock := by
    rintro other ⟨covered', entry', at_place, regular, past⟩
    obtain rfl := informed.shape.covers_unique covered' covered
    obtain rfl := Option.some.inj (entry'.symm.trans entry)
    exact other _ at_place regular past
  rw [if_neg (by simp)]
  cases at_place : world.image.page? place.block with
  | none =>
      have missing : (world.keeping block).image.page? place.block = none := at_place
      rw [results_pin_missing informed'.alone missing]
      refine ⟨⟨_, rfl⟩, sound_of fun page at_page => ?_⟩
      exact absurd (at_page.symm.trans at_place) (Option.some_ne_none _)
  | some page =>
      have at_place' : (world.keeping block).image.page? place.block = some page := at_place
      have unlocked' : place.block ∉ (world.keeping block).held := World.unlocked_of_free free place.block
      rw [results_pin informed'.alone at_place', results_view unlocked' at_place']
      have again : (isRegular page = true → ¬ page.maxOffset < place.offset.toNat) →
          Results (fun failure _ => (∃ cause, failure = .error cause) ∧ ¬ world.image.Dangles contents heapBlock)
            (fun found later => later = world.keeping block ∧ world.image.Leads contents heapBlock found)
            (RangeMap.findFrom heapBlock block (contents.addressing.slot heapBlock) (some place) (rounds + 1))
            (world.keeping block) := by
        intro inside
        apply (findFrom_damaged informed' at_map map bound place_eq valid).mono
        · exact fun _ _ => False.elim
        · refine fun failure _ reported => ⟨reported, sound_of fun page' same regular => ?_⟩
          obtain rfl := Option.some.inj (at_place.symm.trans same)
          exact inside regular
      split
      · rename_i regular
        split
        · rename_i past
          exact ⟨rfl, .nowhere ⟨covered, entry, at_place, regular, past⟩⟩
        rename_i inside
        rw [(informed.shape.regular_of at_place regular).summaryAt_eq, results_lift_ok]
        cases found : summaryOn page place.offset with
        | none => exact again fun _ => inside
        | some summary =>
            simp only
            split
            · rename_i same
              exact ⟨rfl, .there covered entry at_place regular found same⟩
            · exact again fun _ => inside
      · rename_i alien
        exact again fun regular => absurd regular alien

/-- Looking for the summary of a range where the accessor is. -/
theorem find_results (informed : world.Informed contents) (free : world.held = [])
    (reaches : world.accessor.Reaches heapBlock) (start : contents.addressing.IsStart heapBlock)
    (covered : Covers world.image contents heapBlock block) (fuel : 2 ^ 32 < rounds) :
    Results (fun failure _ => (∃ cause, failure = .error cause) ∧ ¬ world.image.Dangles contents heapBlock)
      (fun found later => world.Repositions contents later ∧ later.accessor.Reaches heapBlock ∧
        world.image.Leads contents heapBlock found)
      (RangeMap.find rounds heapBlock) world := by
  obtain ⟨rest, rfl⟩ : ∃ rest, rounds = rest + 2 := ⟨rounds - 2, by omega⟩
  simp only [RangeMap.find, results_accessor]
  rw [Addressing.rangeStart_eq informed.valid, results_lift_ok, informed.addressing_eq, start]
  apply (lookup_reaches informed reaches covered fuel).followed
  rintro - later ⟨rfl, turns, reaches'⟩
  have informed' := turns.informed informed
  rw [← turns.image_eq] at covered
  simp only
  rw [Addressing.entryIndex_eq informed'.shape.valid, results_lift_ok]
  apply (findFrom_results informed' (turns.held_eq.trans free) covered).mono
  · rintro found last ⟨rfl, leads⟩
    rw [turns.image_eq] at leads
    exact ⟨turns.trans (informed'.keeping block), reaches', leads⟩
  · rintro failure last ⟨reported, sound⟩
    rw [turns.image_eq] at sound
    exact ⟨reported, sound⟩

end Finding

/-! ## Trying again and again -/

/-- An operation is about to store a summary of a range whose entry points past the line pointers of a page. There is
room for the summary on the last page, or for one more page. -/
structure World.Baffled (world : World) (contents : Metapage) (heapBlock : BlockNumber) (length : Nat) : Prop where
  informed : world.Informed contents
  free : world.held = []
  reaches : world.accessor.Reaches heapBlock
  dangles : world.image.Dangles contents heapBlock
  room : (∀ block page, ¬ world.image.Hosts none length block page) → world.image.size + 1 < 2 ^ 32

section Baffled

variable {world later : World} {contents : Metapage} {heapBlock block : BlockNumber} {tuple : List UInt8}
  {addressing : Addressing} {length rounds limit : Nat} {site : Placement.Site}

/-- The range map covers a range whose entry dangles. -/
theorem Image.Dangles.exists_covers {image : Image} (dangles : image.Dangles contents heapBlock) :
    ∃ block, Covers image contents heapBlock block := by
  obtain ⟨covered, -, -, -, -⟩ := dangles
  exact ⟨_, covered⟩

theorem Image.Dangles.after {image last : Image} (dangles : image.Dangles contents heapBlock)
    (quiet : Quiet image last) (keeps : image.Keeps last) : last.Dangles contents heapBlock := by
  obtain ⟨covered, entry, at_place, regular, past⟩ := dangles
  exact ⟨quiet.map.covers.mpr covered, (quiet.entries _ _).trans entry, keeps _ _ at_place, regular, past⟩

/-- Nothing is found where the entry dangles. -/
theorem Image.Leads.eq_none {image : Image} {found : Option FoundSummary} (shape : Geometry image contents)
    (leads : image.Leads contents heapBlock found) (dangles : image.Dangles contents heapBlock) : found = none := by
  cases leads with
  | free => rfl
  | nowhere => rfl
  | there covered entry at_place regular summary heapBlock_eq =>
      obtain ⟨covered', entry', at_place', -, past⟩ := dangles
      obtain rfl := shape.covers_unique covered' covered
      obtain rfl := Option.some.inj (entry'.symm.trans entry)
      obtain rfl := Option.some.inj (at_place'.symm.trans at_place)
      obtain ⟨bytes, item, -⟩ := Option.bind_eq_some_iff.mp summary
      have packed := (shape.regular_of at_place regular).packed
      have used : (Page.pointerAt _ _).isUsed = true :=
        (packed.isSome_itemAt _).symm.trans (congrArg Option.isSome item)
      obtain ⟨-, high⟩ := Page.offset_of_isUsed used
      omega

/-- The summary cannot be stored. -/
theorem store_baffled (baffled : world.Baffled contents heapBlock tuple.length) (short : tuple.length ≤ maxTupleSize)
    (fuel : 2 ^ 32 < limit) :
    Results (fun _ _ => False) (fun stored later => stored = none ∧ later.Baffled contents heapBlock tuple.length)
      (store limit addressing heapBlock (contents.addressing.slot heapBlock) tuple) world := by
  obtain ⟨rest, rfl⟩ : ∃ rest, limit = rest + 1 := ⟨limit - 1, by omega⟩
  have informed := baffled.informed
  simp only [store]
  apply (lockSite_results informed.alone informed.shape baffled.room (World.holdsOnly_none baffled.free) short).andThen
  intro site middle sites
  obtain ⟨covered, entry, -, -, -⟩ := baffled.dangles
  apply (sites.lockPage_results informed baffled.reaches covered fuel).andThen
  rintro ⟨mapBlock, mapPage⟩ later ⟨rfl, locks, same⟩
  have valid : (entryAt mapPage (contents.addressing.slot heapBlock)).isValid = true := by
    by_contra invalid
    rw [entry, if_neg invalid] at same
    contradiction
  simp only
  rw [entry_eq mapPage (contents.addressing.slot_lt heapBlock), results_lift_ok, if_pos valid, results_releaseAll,
    results_pure]
  obtain ⟨page, hosts⟩ := sites.hosts
  have image_eq : World.image { later with held := [] } = middle.image := locks.image_eq
  refine ⟨rfl, locks.released (sites.informed informed), rfl, locks.reaches, ?_, fun full => ?_⟩
  · rw [image_eq]
    exact baffled.dangles.after sites.quiet sites.keeps
  · rw [image_eq] at full
    exact absurd hosts (full _ _)

/-- Looking for the summary finds nothing. -/
theorem find_baffled (baffled : world.Baffled contents heapBlock length)
    (start : contents.addressing.IsStart heapBlock) (fuel : 2 ^ 32 < limit) :
    Results (fun _ _ => False) (fun found later => found = none ∧ later.Baffled contents heapBlock length)
      (RangeMap.find limit heapBlock) world := by
  have dangles := baffled.dangles
  obtain ⟨block, covered⟩ := dangles.exists_covers
  apply (find_results baffled.informed baffled.free baffled.reaches start covered fuel).mono
  · rintro found later ⟨turns, reaches, leads⟩
    refine ⟨leads.eq_none baffled.informed.shape dangles, turns.informed baffled.informed,
      turns.held_eq.trans baffled.free, reaches, ?_, ?_⟩
    · rw [turns.image_eq]
      exact dangles
    · rw [turns.image_eq]
      exact baffled.room
  · rintro failure later ⟨-, sound⟩
    exact sound dangles

/-- The loop goes on for as many rounds as it may. -/
theorem bind_baffled (baffled : world.Baffled contents heapBlock tuple.length)
    (start : contents.addressing.IsStart heapBlock) (short : tuple.length ≤ maxTupleSize) (fuel : 2 ^ 32 < limit) :
    Results (fun failure _ => failure = .exhausted) (fun _ _ => False)
      (bind limit addressing heapBlock (contents.addressing.slot heapBlock) tuple rounds) world := by
  induction rounds generalizing world with
  | zero => exact rfl
  | succ rounds ih =>
      simp only [bind]
      rw [results_poll baffled.informed.knows.running]
      apply (find_baffled baffled start fuel).followed
      rintro - middle ⟨rfl, baffled'⟩
      apply (store_baffled baffled' short fuel).followed
      rintro - later ⟨rfl, baffled''⟩
      exact ih baffled''

/-- Inserting a summary never ends when the entry of its range points past the line pointers of a page, although
nobody else acts. -/
theorem insert_baffled {payload : List UInt8} (informed : world.Informed contents) (free : world.held = [])
    (dangles : world.image.Dangles contents (contents.addressing.start heapBlock))
    (room : world.image.size + 1 < 2 ^ 32)
    (short : (Summary.encode ⟨contents.addressing.start heapBlock, payload⟩).length ≤ maxTupleSize)
    (fuel : 2 ^ 32 < rounds) :
    Results (fun failure _ => failure = .exhausted) (fun _ _ => False) (insert rounds heapBlock payload) world := by
  obtain ⟨block, covered⟩ := dangles.exists_covers
  simp only [insert, results_accessor]
  rw [Addressing.rangeStart_eq informed.valid, results_lift_ok, informed.addressing_eq, if_neg (Nat.not_lt.mpr short)]
  apply (ensure_results informed free covered fuel).followed
  rintro - later ⟨-, learns, reaches⟩
  rw [Addressing.entryIndex_eq informed.shape.valid, results_lift_ok]
  refine bind_baffled ⟨learns.informed informed, learns.held_eq.trans free, reaches, ?_, fun _ => ?_⟩
    (Addressing.isStart_start informed.shape.valid heapBlock) short fuel
  · rw [learns.image_eq]
    exact dangles
  · rw [learns.image_eq]
    exact room

/-- Somebody else has changed a page. -/
def World.withPage (world : World) (block : BlockNumber) (page : Page) : World :=
  { world with relation := world.relation.setPage block page }

/-- One entry is enough: when that of a covered range is overwritten with a place past the line pointers of a regular
page, the index is still one whose pages are in order, and the entry dangles. -/
theorem World.Informed.redirected {mapPage page : Page} {place : ItemPointer} (informed : world.Informed contents)
    (covered : Covers world.image contents heapBlock block) (at_map : world.image.page? block = some mapPage)
    (at_place : world.image.page? place.block = some page) (regular : isRegular page = true)
    (past : page.maxOffset < place.offset.toNat) :
    (world.withPage block (withEntry mapPage (contents.addressing.slot heapBlock) place)).Informed contents ∧
      (world.withPage block (withEntry mapPage (contents.addressing.slot heapBlock) place)).image.Dangles contents
        heapBlock := by
  have bound := contents.addressing.slot_lt heapBlock
  have map := mapPage_of_covers informed.shape covered at_map
  obtain ⟨map', next, number⟩ := map_withEntry map bound place
  have apart := block_ne at_place (informed.shape.regular_of at_place regular) at_map map
  have first : block ≠ metaBlock := by
    rintro rfl
    exact absurd ((informed.shape.metaType_of at_map).1.symm.trans map.kind) (by decide)
  have same := informed.shape.sameMap_put first at_map (.map map map' next number)
  have valid : place.isValid = true := by
    rw [ItemPointer.isValid, bne_iff_ne]
    intro zero
    rw [zero] at past
    exact Nat.not_lt_zero _ past
  refine ⟨⟨informed.alone, ?_, ?_, ?_⟩, ?_⟩
  all_goals rw [World.image, World.withPage, pagesOf_setPage]
  · intro other page' at_other map_other
    obtain ⟨page'', at_before, map_before⟩ := same.back other page' at_other map_other
    exact informed.unlocked other page'' at_before map_before
  · exact same.geometry informed.shape
  · exact informed.knows.grow (.of_sameMap same (Nat.le_of_eq (Image.size_put ..).symm))
  · have entry := entryAt_withEntry_same mapPage bound place
    rw [if_pos valid] at entry
    refine ⟨same.covers.mpr covered, ?_, (Image.page?_put_other apart).trans at_place, regular, past⟩
    exact entryIn_valid (Image.page?_put_same _ at_map) map' bound entry valid

end Baffled

/-! ## Steps that come to an end in any world -/

namespace Procedure

/-- Whatever the operation acts on, it comes to a value for which `post` holds, or to an error. -/
def Yields {α : Type} (post : α → Prop) (procedure : Procedure α) : Prop :=
  ∀ world, Results (fun failure _ => ∃ cause, failure = .error cause) (fun value _ => post value) procedure world

namespace Yields

variable {α β : Type} {post : α → Prop} {post' : β → Prop} {block : BlockNumber} {page : Page} {world : World}

theorem done {value : α} (h : post value) : Yields post (pure value) := fun _ => h

theorem andThen {procedure : Procedure α} {rest : α → Procedure β} (yields : procedure.Yields post)
    (next : ∀ value, post value → (rest value).Yields post') : (procedure >>= rest).Yields post' :=
  fun world => Results.andThen (yields world) fun value later done => next value done later

theorem write {rest : Unit → Procedure α} (next : (rest ()).Yields post) :
    (Procedure.write block page >>= rest).Yields post := fun _ => next _

theorem markDirty {rest : Unit → Procedure α} (next : (rest ()).Yields post) :
    (Procedure.markDirty block >>= rest).Yields post := fun _ => next _

theorem releaseAll {rest : Unit → Procedure α} (next : (rest ()).Yields post) :
    (Procedure.releaseAll >>= rest).Yields post := fun _ => next _

theorem append {record : Log.Record} {rest : Option Lsn → Procedure α} (next : ∀ lsn, (rest lsn).Yields post) :
    (Procedure.append record >>= rest).Yields post := by
  intro world
  refine results_request.mpr ?_
  rw [World.perform]
  cases world.relation.logRecord world.logFile record with
  | mk outcome after =>
      cases outcome with
      | ok lsn => exact next lsn _
      | error cause => exact ⟨cause, rfl⟩

theorem stamp (lsn : Lsn) (pages : List (BlockNumber × Page)) :
    (Procedure.stamp lsn pages).Yields fun _ => True := by
  induction pages with
  | nil => exact done trivial
  | cons entry rest ih => exact write ih

theorem logged {record : Log.Record} {pages : List (BlockNumber × Page)} :
    (Procedure.logged record pages).Yields fun _ => True := by
  rw [Procedure.logged]
  apply append
  intro lsn
  cases lsn with
  | none => exact done trivial
  | some lsn => exact stamp lsn pages

end Yields

end Procedure

/-! ## Succeeding at the first try -/

section Settled

variable {world : World} {contents : Metapage} {heapBlock block : BlockNumber} {tuple : List UInt8}
  {addressing : Addressing} {limit rounds : Nat}

/-- Locking a regular page keeps no page of the range map from being locked. -/
theorem World.Informed.hold {page : Page} (informed : world.Informed contents)
    (at_block : world.image.page? block = some page) (regular : Regular page) :
    World.Informed { world with held := [block] } contents := by
  refine ⟨informed.alone, fun other mapPage at_map map mem => ?_, informed.shape, informed.knows⟩
  obtain rfl := List.mem_singleton.mp mem
  obtain rfl := Option.some.inj (at_block.symm.trans at_map)
  exact regular.not_map map

/-- A tuple that fits is stored, whatever else there is. -/
theorem addTo_yields {site : Placement.Site} (regular : Regular site.page)
    (fits : site.page.fits tuple.length = true) (nonempty : 0 < tuple.length) :
    (Placement.addTo site tuple).Yields fun _ => True := by
  obtain ⟨offset, page, added, -⟩ := Page.addItem_of_fits regular.packed fits nonempty
  intro world
  simp only [Placement.addTo]
  rw [added, results_lift_ok]
  exact trivial

/-- A summary is stored if its range has none. -/
theorem store_free (informed : world.Informed contents) (free : world.held = [])
    (reaches : world.accessor.Reaches heapBlock) (covered : Covers world.image contents heapBlock block)
    (unbound : entryIn world.image block (contents.addressing.slot heapBlock) = none)
    (room : world.image.size + 1 < 2 ^ 32) (short : tuple.length ≤ maxTupleSize) (nonempty : 0 < tuple.length)
    (fuel : 2 ^ 32 < limit) :
    Results (fun failure _ => ∃ cause, failure = .error cause) (fun stored _ => stored ≠ none)
      (store limit addressing heapBlock (contents.addressing.slot heapBlock) tuple) world := by
  obtain ⟨rest, rfl⟩ : ∃ rest, limit = rest + 1 := ⟨limit - 1, by omega⟩
  simp only [store]
  apply (lockSite_results informed.alone informed.shape (fun _ => room) (World.holdsOnly_none free) short).followed
  intro site middle sites
  apply (sites.lockPage_results informed reaches covered fuel).followed
  rintro ⟨mapBlock, mapPage⟩ later ⟨rfl, -, same⟩
  have bound := contents.addressing.slot_lt heapBlock
  have invalid : ¬ (entryAt mapPage (contents.addressing.slot heapBlock)).isValid = true := by
    intro valid
    rw [unbound, if_pos valid] at same
    contradiction
  simp only
  rw [entry_eq mapPage bound, results_lift_ok, if_neg invalid]
  apply (addTo_yields sites.regular sites.fits nonempty later).andThen
  rintro ⟨offset, page⟩ last -
  simp only
  rw [setEntry_eq mapPage bound, results_lift_ok]
  refine Procedure.Yields.write (.markDirty (.markDirty (.andThen .logged fun _ _ => ?_))) last
  exact .releaseAll (.done (Option.some_ne_none _))

/-- A summary is moved away from where the entry of its range leads to. -/
theorem move_there {found : FoundSummary} (informed : world.Informed contents) (free : world.held = [])
    (reaches : world.accessor.Reaches heapBlock) (leads : world.image.Leads contents heapBlock (some found))
    (room : world.image.size + 1 < 2 ^ 32) (short : tuple.length ≤ maxTupleSize) (nonempty : 0 < tuple.length)
    (fuel : 2 ^ 32 < limit) :
    Results (fun failure _ => ∃ cause, failure = .error cause) (fun moved _ => moved ≠ none)
      (Placement.move limit heapBlock found.place tuple) world := by
  obtain ⟨rest, rfl⟩ : ∃ rest, limit = rest + 1 := ⟨limit - 1, by omega⟩
  cases leads with
  | there covered entry at_old kind summary same =>
      rename_i entryBlock oldPage
      have regular := informed.shape.regular_of at_old kind
      simp only [Placement.move, results_accessor]
      rw [results_pin informed.alone at_old, results_acquire (World.unlocked_of_free free _) at_old, if_pos kind,
        regular.summaryAt_eq, summary, results_map_lift_ok, free]
      rw [Option.any_some, same, beq_self_eq_true, Bool.not_true, if_neg Bool.false_ne_true]
      have holds := World.holdsOnly_old at_old regular
      have holding := informed.hold at_old regular
      apply (lockSite_results holding.alone holding.shape (fun _ => room) holds short).followed
      intro site middle sites
      apply (sites.lockPage_results holding reaches covered fuel).followed
      rintro ⟨mapBlock, mapPage⟩ later ⟨rfl, -, points⟩
      have bound := contents.addressing.slot_lt heapBlock
      have pointing : entryAt mapPage (contents.addressing.slot heapBlock) = found.place := by
        split at points
        · exact Option.some.inj (points.symm.trans entry)
        · exact absurd (entry.symm.trans points) (Option.some_ne_none _)
      simp only
      rw [informed.addressing_eq, Addressing.entryIndex_eq informed.shape.valid, results_lift_ok,
        entry_eq mapPage bound, results_lift_ok, if_neg (not_not.mpr pointing)]
      apply (addTo_yields sites.regular sites.fits nonempty later).andThen
      rintro ⟨offset, page⟩ last -
      obtain ⟨oldPage', removed, -⟩ := Page.deleteItem_spec regular.packed found.place.offset.toNat
      simp only
      rw [removed, results_lift_ok, results_write, setEntry_eq mapPage bound, results_lift_ok]
      refine Procedure.Yields.write (.markDirty (.markDirty (.markDirty (.andThen .logged fun _ _ => ?_)))) _
      exact .releaseAll (.done (Option.some_ne_none _))

/-- The loop stores a summary in its first round, unless the entry of the range dangles. -/
theorem bind_settles (informed : world.Informed contents) (free : world.held = [])
    (reaches : world.accessor.Reaches heapBlock) (start : contents.addressing.IsStart heapBlock)
    (covered : Covers world.image contents heapBlock block) (sound : ¬ world.image.Dangles contents heapBlock)
    (room : world.image.size + 1 < 2 ^ 32) (short : tuple.length ≤ maxTupleSize) (nonempty : 0 < tuple.length)
    (fuel : 2 ^ 32 < limit) :
    Results (fun failure _ => ∃ cause, failure = .error cause) (fun _ _ => True)
      (bind limit addressing heapBlock (contents.addressing.slot heapBlock) tuple (rounds + 1)) world := by
  simp only [bind]
  rw [results_poll informed.knows.running]
  apply Results.bind
  apply (find_results informed free reaches start covered fuel).mono
  · rintro found later ⟨turns, reaches', leads⟩
    have informed' := turns.informed informed
    have free' := turns.held_eq.trans free
    rw [← turns.image_eq] at covered sound room leads
    cases leads with
    | free covered unbound =>
        apply (store_free informed' free' reaches' covered unbound room short nonempty fuel).andThen
        rintro (_ | place) last there
        · exact absurd rfl there
        · exact trivial
    | nowhere dangles => exact absurd dangles sound
    | there covered entry at_place regular summary same =>
        have leads := Image.Leads.there covered entry at_place regular summary same
        apply (move_there informed' free' reaches' leads room short nonempty fuel).andThen
        rintro (_ | place) last there
        · exact absurd rfl there
        · exact trivial
  · exact fun _ _ failed => failed.1

/-- Inserting a summary ends with the place of the summary or with an error, if the range map covers the range and its
entry does not point past the line pointers of a page. -/
theorem insert_settles {payload : List UInt8} (informed : world.Informed contents) (free : world.held = [])
    (covered : Covers world.image contents (contents.addressing.start heapBlock) block)
    (sound : ¬ world.image.Dangles contents (contents.addressing.start heapBlock))
    (room : world.image.size + 1 < 2 ^ 32) (fuel : 2 ^ 32 < rounds) :
    Results (fun failure _ => ∃ cause, failure = .error cause) (fun _ _ => True) (insert rounds heapBlock payload)
      world := by
  simp only [insert, results_accessor]
  rw [Addressing.rangeStart_eq informed.valid, results_lift_ok, informed.addressing_eq]
  split
  · exact ⟨_, rfl⟩
  rename_i short
  apply (ensure_results informed free covered fuel).followed
  rintro - later ⟨-, learns, reaches⟩
  rw [Addressing.entryIndex_eq informed.shape.valid, results_lift_ok]
  obtain ⟨rest, rfl⟩ : ∃ rest, rounds = rest + 1 := ⟨rounds - 1, by omega⟩
  rw [← learns.image_eq] at covered sound room
  have nonempty : 0 < (Summary.encode ⟨contents.addressing.start heapBlock, payload⟩).length := by
    rw [Summary.length_encode]
    exact Nat.succ_pos _
  exact bind_settles (learns.informed informed) (learns.held_eq.trans free) reaches
    (Addressing.isStart_start informed.shape.valid heapBlock) covered sound room (Nat.not_lt.mp short) nonempty fuel

end Settled

end Warehouse.RangeIndex
