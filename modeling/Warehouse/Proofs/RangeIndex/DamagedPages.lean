import Warehouse.Proofs.RangeIndex.Walks

/-! # Reading pages that hold anything

Nothing is known of the pages of the relation here, and a user opens the index and asks for the summary of a range.
Positions that are computed from a table block stay within the range map page, whatever the metapage says about the
length of a range, unless it says zero. What a line pointer says is not compared with the size of the page, so that an
item may reach past its end. These two are the only steps that have no result. -/

namespace Warehouse

/-! ## Items that reach past the end of the page -/

namespace Page

/-- Reading the item at an offset leaves the page. -/
inductive Overruns (page : Page) (offset : Nat) : Prop
  /-- The array of line pointers is longer than the page. -/
  | pointer (high : offset ≤ page.maxOffset) (past : pageSize < pointerPos offset + 4)
  /-- The line pointer says so of its item. -/
  | item (normal : (page.pointerAt offset).state = LinePointer.normal)
      (past : pageSize < (page.pointerAt offset).position.toNat + (page.pointerAt offset).length.toNat)

section Items

variable {page : Page} {offset : Nat} {fault : Fault}

theorem pointer_eq_ok (fits : offset ≤ page.maxOffset → pointerPos offset + 4 ≤ pageSize) :
    page.pointer offset = .ok (page.pointerAt offset) := by
  by_cases outside : offset = 0 ∨ page.maxOffset < offset
  · rw [pointerAt_outside outside, pointer, if_pos outside]
  · have fits := fits (by omega)
    simp only [pointerAt, pointer, outside, if_false, fetch32, fits, dite_true, Functor.map, Except.map]

/-- The first line pointer is on the page. -/
theorem one_le_of_past (past : pageSize < pointerPos offset + 4) : 1 ≤ offset := by
  simp only [pointerPos, headerSize, pageSize, pointerSize] at past
  omega

theorem pointer_eq_error (high : offset ≤ page.maxOffset)
    (past : pageSize < pointerPos offset + 4) : page.pointer offset = .error .outOfBounds := by
  have low := one_le_of_past past
  have inside : ¬ (offset = 0 ∨ page.maxOffset < offset) := by omega
  simp only [pointer, inside, if_false, fetch32, Nat.not_le.mpr past, dite_false, Functor.map, Except.map]

/-- An item that does not reach past the end of the page is read. -/
theorem item_eq_ok (stays : ¬ page.Overruns offset) : ∃ found, page.item offset = .ok found := by
  have fits : offset ≤ page.maxOffset → pointerPos offset + 4 ≤ pageSize := by
    intro high
    by_contra past
    exact stays (.pointer high (Nat.not_le.mp past))
  simp only [item, pointer_eq_ok fits, bind, Except.bind]
  split
  · rename_i normal
    have fits : (page.pointerAt offset).position.toNat + (page.pointerAt offset).length.toNat ≤ pageSize := by
      by_contra past
      exact stays (.item normal (Nat.not_le.mp past))
    simp only [fetch, fits, dite_true]
    exact ⟨_, rfl⟩
  · exact ⟨_, rfl⟩

/-- Reading an item that reaches past the end of the page has no result. -/
theorem Overruns.item_eq (overruns : page.Overruns offset) : page.item offset = .error .outOfBounds := by
  cases overruns with
  | pointer high past => simp only [Page.item, pointer_eq_error high past, bind, Except.bind]
  | item normal past =>
      by_cases fits : offset ≤ page.maxOffset → pointerPos offset + 4 ≤ pageSize
      · simp only [Page.item, pointer_eq_ok fits, bind, Except.bind, normal, if_true, fetch, Nat.not_le.mpr past,
          dite_false, Functor.map, Except.map]
      · obtain ⟨high, past⟩ := Classical.not_imp.mp fits
        simp only [Page.item, pointer_eq_error high (Nat.not_le.mp past), bind, Except.bind]

end Items

end Page

namespace RangeIndex

/-! ## Places computed from a table block -/

namespace Addressing

variable {addressing : Addressing}

/-- Whatever the length of a range is, unless it is zero, no step of the computation of a place exceeds thirty-two
bits. -/
theorem ranges_within (divisible : addressing.pagesPerRange ≠ 0) (heapBlock : BlockNumber) :
    addressing.origin heapBlock ≤ heapBlock ∧ ∃ ranges,
      addressing.rangesFrom (addressing.origin heapBlock) heapBlock = .ok ranges ∧
      ranges.toNat = (heapBlock.toNat - (addressing.origin heapBlock).toNat) / addressing.pagesPerRange.toNat ∧
      (addressing.origin heapBlock).toNat + ranges.toNat * addressing.pagesPerRange.toNat ≤ heapBlock.toNat ∧
      ranges.toNat / entriesPerPage + 1 < 2 ^ 32 := by
  have le : addressing.origin heapBlock ≤ heapBlock := UInt32.le_iff_toNat_le.mpr (addressing.origin_le heapBlock)
  have number : ((heapBlock - addressing.origin heapBlock) / addressing.pagesPerRange).toNat =
      addressing.rangeNumber heapBlock := by
    rw [UInt32.toNat_div, UInt32.toNat_sub_of_le _ _ le, rangeNumber]
  have small := addressing.rangeNumber_lt heapBlock
  have product := addressing.rangeNumber_mul_le heapBlock
  have origin := addressing.origin_le heapBlock
  refine ⟨le, _, if_neg divisible, number, ?_, ?_⟩
  · rw [number]
    omega
  · rw [number, entriesPerPage]
    omega

theorem rangeStart_ok (divisible : addressing.pagesPerRange ≠ 0) (heapBlock : BlockNumber) :
    ∃ start, addressing.rangeStart heapBlock = .ok start := by
  rw [rangeStart, rangesFrom, if_neg divisible]
  exact ⟨_, rfl⟩

theorem entryIndex_ok (divisible : addressing.pagesPerRange ≠ 0) (heapBlock : BlockNumber) :
    ∃ index < entriesPerPage, addressing.entryIndex heapBlock = .ok index := by
  rw [entryIndex, rangesFrom, if_neg divisible]
  exact ⟨_, Nat.mod_lt _ (by decide), rfl⟩

theorem mapBlock_ok (divisible : addressing.pagesPerRange ≠ 0) (heapBlock : BlockNumber) :
    ∃ block, addressing.mapBlock heapBlock = .ok block := by
  rw [mapBlock, rangesFrom, if_neg divisible]
  exact ⟨_, rfl⟩

theorem logicalPage_ok (divisible : addressing.pagesPerRange ≠ 0) (heapBlock : BlockNumber) :
    ∃ number, addressing.logicalPage heapBlock = .ok number := by
  rw [logicalPage, rangesFrom, if_neg divisible]
  exact ⟨_, rfl⟩

/-- Nothing can be computed for ranges of no blocks. -/
theorem rangeStart_undivided (undivided : addressing.pagesPerRange = 0) (heapBlock : BlockNumber) :
    addressing.rangeStart heapBlock = .error .divisionByZero := by
  rw [rangeStart, rangesFrom, if_pos undivided]
  rfl

end Addressing

/-! ## What reading may come to -/

/-- Why reading an index whose pages hold anything may fail. -/
inductive Image.Spoils (image : Image) : Failure → Prop
  | reported (cause : Error) : Spoils image (.error cause)
  | overrun {block : BlockNumber} {page : Page} {offset : Nat} (at_block : image.page? block = some page)
      (regular : isRegular page = true) (overruns : page.Overruns offset) : Spoils image (.fault .outOfBounds)
  | endless {block : BlockNumber} (linked : SelfLinked image block) : Spoils image .exhausted

/-- Nothing has changed but the accessor, and its user still wants to go on. -/
structure World.Stays (world later : World) : Prop where
  same : later = { world with accessor := later.accessor }
  running : later.accessor.cancelled = world.accessor.cancelled

/-- An operation changes nothing but the accessor, and when it fails it does so for a reason that the pages give. -/
def World.Reads {α : Type} (world : World) (procedure : Procedure α) (post : α → World → Prop) : Prop :=
  Results (fun failure later => world.Stays later ∧ world.image.Spoils failure)
    (fun value later => world.Stays later ∧ post value later) procedure world

section Reading

variable {α β : Type} {world later last : World} {sequence rounds : Nat} {block heapBlock : BlockNumber} {page : Page}
  {target : UInt32} {procedure : Procedure α} {post : α → World → Prop}

namespace World.Stays

theorem refl (world : World) : world.Stays world := ⟨rfl, rfl⟩

theorem trans (stays : world.Stays later) (stays' : later.Stays last) : world.Stays last where
  same := by rw [stays'.same, stays.same]
  running := stays'.running.trans stays.running

theorem image_eq (stays : world.Stays later) : later.image = world.image := by
  rw [stays.same]
  rfl

theorem held_eq (stays : world.Stays later) : later.held = world.held := by
  rw [stays.same]

theorem undisturbed (stays : world.Stays later) (quiet : world.Undisturbed) : later.Undisturbed where
  alone := by
    rw [stays.same]
    exact quiet.alone
  running := stays.running.trans quiet.running

end World.Stays

namespace World.Reads

variable {rest : α → Procedure β} {post' : β → World → Prop}

theorem done {value : α} (h : post value world) : world.Reads (pure value) post := ⟨.refl world, h⟩

theorem report {cause : Error} : world.Reads (.report cause) post := ⟨.refl world, .reported cause⟩

/-- Reading goes on where other reading ended. -/
theorem after (stays : world.Stays later) (reads : later.Reads procedure post) :
    Results (fun failure last => world.Stays last ∧ world.image.Spoils failure)
      (fun value last => world.Stays last ∧ post value last) procedure later := by
  apply Results.mono reads
  · exact fun _ _ ended => ⟨stays.trans ended.1, ended.2⟩
  · exact fun _ _ ended => ⟨stays.trans ended.1, stays.image_eq ▸ ended.2⟩

theorem andThen (reads : world.Reads procedure post)
    (next : ∀ value later, world.Stays later → post value later → later.Reads (rest value) post') :
    world.Reads (procedure >>= rest) post' := by
  apply Results.andThen reads
  rintro value later ⟨stays, done⟩
  exact after stays (next value later stays done)

theorem accessor {rest : Accessor → Procedure α} (next : world.Reads (rest world.accessor) post) :
    world.Reads (Procedure.accessor >>= rest) post := next

theorem remember {rest : Unit → Procedure α} {accessor : Accessor}
    (running : accessor.cancelled = world.accessor.cancelled)
    (next : ∀ later, world.Stays later → later.accessor = accessor → later.Reads (rest ()) post) :
    world.Reads (Procedure.remember accessor >>= rest) post := by
  have stays : world.Stays { world with accessor } := ⟨rfl, running⟩
  exact results_remember.mpr (after stays (next _ stays rfl))

theorem remember_last {accessor : Accessor} (running : accessor.cancelled = world.accessor.cancelled) :
    world.Reads (Procedure.remember accessor) fun _ _ => True :=
  ⟨⟨rfl, running⟩, trivial⟩

theorem lift_ok {result : Except Fault β} {value : β} {rest : β → Procedure α} (eq : result = .ok value)
    (next : world.Reads (rest value) post) : world.Reads ((liftM result : Procedure β) >>= rest) post := by
  rw [eq]
  exact next

theorem lift_value {result : Except Error β} {value : β} {rest : β → Procedure α} (eq : result = .ok value)
    (next : world.Reads (rest value) post) : world.Reads ((liftM result : Procedure β) >>= rest) post := by
  rw [eq]
  exact next

theorem poll {rest : Unit → Procedure α} (quiet : world.Undisturbed) (next : world.Reads (rest ()) post) :
    world.Reads (Procedure.poll >>= rest) post :=
  (results_poll quiet.running).mpr next

theorem pin {rest : Unit → Procedure α} (quiet : world.Undisturbed)
    (next : ∀ page, world.image.page? block = some page → world.Reads (rest ()) post) :
    world.Reads (Procedure.pin block >>= rest) post := by
  cases at_block : world.image.page? block with
  | none => exact (results_pin_missing quiet.alone at_block).mpr ⟨.refl world, .reported _⟩
  | some page => exact (results_pin quiet.alone at_block).mpr (next page at_block)

theorem view {rest : Page → Procedure α} (free : world.held = [])
    (next : ∀ page, world.image.page? block = some page → world.Reads (rest page) post) :
    world.Reads (Procedure.view block >>= rest) post := by
  have unlocked := World.unlocked_of_free free block
  cases at_block : world.image.page? block with
  | none => exact (results_view_missing unlocked at_block).mpr ⟨.refl world, .reported _⟩
  | some page => exact (results_view unlocked at_block).mpr (next page at_block)

end World.Reads

/-! ## Finding the page of an entry -/

/-- Going to the first page of a chain. -/
theorem toStart_reads (quiet : world.Undisturbed) (free : world.held = []) (bound : sequence < sequenceCount) :
    world.Reads (Chains.toStart sequence) fun _ _ => True := by
  simp only [Chains.toStart]
  apply World.Reads.accessor
  apply World.Reads.lift_value (Accessor.chain_eq _ bound)
  apply World.Reads.remember
  · rfl
  intro later stays same
  split
  · exact .remember_last stays.running.symm
  · apply World.Reads.pin (stays.undisturbed quiet)
    intro page at_first
    apply World.Reads.view (stays.held_eq.trans free)
    intro page' at_first'
    split
    · exact .remember_last stays.running.symm
    · exact .report

theorem World.Moves.stays (moves : world.Moves later) : world.Stays later := by
  obtain ⟨page, logical, rfl⟩ := moves
  exact ⟨rfl, rfl⟩

/-- Walking along a chain. -/
theorem advance_reads (quiet : world.Undisturbed) (free : world.held = []) (fuel : 2 ^ 32 < rounds) :
    world.Reads (Chains.advance rounds target) fun _ _ => True := by
  apply Results.mono (advance_ends quiet free fuel)
  · rintro found later ⟨moves, -⟩
    exact ⟨moves.stays, trivial⟩
  · rintro failure later ⟨moves, ⟨cause, rfl⟩ | ⟨rfl, -, linked, -⟩⟩
    · exact ⟨moves.stays, .reported cause⟩
    · exact ⟨moves.stays, .endless linked⟩

/-- Looking for the range map page that has the entry of a table block. -/
theorem lookup_reads (quiet : world.Undisturbed) (free : world.held = []) (fuel : 2 ^ 32 < rounds)
    (divisible : world.accessor.addressing.pagesPerRange ≠ 0) :
    world.Reads (RangeMap.lookup rounds heapBlock) fun _ _ => True := by
  simp only [RangeMap.lookup]
  apply World.Reads.accessor
  split
  · obtain ⟨number, eq⟩ := Addressing.logicalPage_ok divisible heapBlock
    apply World.Reads.lift_ok eq
    split
    · apply (toStart_reads quiet free (sequenceOf_lt heapBlock)).andThen
      intro _ later stays _
      exact advance_reads (stays.undisturbed quiet) (stays.held_eq.trans free) fuel
    · exact advance_reads quiet free fuel
  · obtain ⟨block, eq⟩ := Addressing.mapBlock_ok divisible heapBlock
    apply World.Reads.lift_ok eq
    exact .done trivial

/-! ## Finding a summary -/

/-- Reading an entry of the range map. -/
theorem readEntry_reads {index : Nat} (quiet : world.Undisturbed) (free : world.held = [])
    (bound : index < entriesPerPage) :
    world.Reads (RangeMap.readEntry block index) fun place _ => ∃ page, world.image.page? block = some page ∧
      isMap page = true ∧ entryAt page index = place := by
  simp only [RangeMap.readEntry]
  have pinned : world.Reads (RangeMap.pinCurrent block) fun _ _ => True := by
    simp only [RangeMap.pinCurrent]
    apply World.Reads.accessor
    split
    · apply World.Reads.pin quiet
      intro page at_block
      exact .remember_last rfl
    · exact .done trivial
  apply pinned.andThen
  intro _ later stays _
  apply World.Reads.view (stays.held_eq.trans free)
  intro page at_block
  rw [stays.image_eq] at at_block
  split
  · rename_i map
    rw [entry_eq page bound]
    exact ⟨.refl later, page, at_block, map, rfl⟩
  · apply World.Reads.accessor
    exact .report

/-- An entry that is read once more is the same, and is not followed again. -/
theorem findFrom_again {index : Nat} (quiet : world.Undisturbed) (free : world.held = [])
    (bound : index < entriesPerPage) (at_block : world.image.page? block = some page) :
    world.Reads (RangeMap.findFrom heapBlock block index (some (entryAt page index)) (rounds + 1)) fun _ _ => True := by
  rw [RangeMap.findFrom]
  apply World.Reads.poll quiet
  apply (readEntry_reads quiet free bound).andThen
  rintro place later stays ⟨page', at_block', -, rfl⟩
  obtain rfl := Option.some.inj (at_block.symm.trans at_block')
  split
  · exact .done trivial
  · rw [if_pos rfl]
    apply World.Reads.accessor
    exact .report

/-- Reading the item that an entry points at. -/
theorem summaryAt_reads {rest : Option Summary → Procedure α} {offset : OffsetNumber}
    (at_block : world.image.page? block = some page) (regular : isRegular page = true)
    (next : ∀ summary, world.Reads (rest summary) post) :
    world.Reads (liftM (RangeMap.summaryAt page offset) >>= rest) post := by
  by_cases overruns : page.Overruns offset.toNat
  · rw [RangeMap.summaryAt, overruns.item_eq]
    exact results_lift_fault.mpr ⟨.refl world, .overrun at_block regular overruns⟩
  · obtain ⟨found, eq⟩ := Page.item_eq_ok overruns
    rw [RangeMap.summaryAt, eq]
    exact next _

/-- Following the entry of a range. -/
theorem findFrom_reads {index : Nat} (quiet : world.Undisturbed) (free : world.held = [])
    (bound : index < entriesPerPage) :
    world.Reads (RangeMap.findFrom heapBlock block index none (rounds + 2)) fun _ _ => True := by
  rw [RangeMap.findFrom]
  apply World.Reads.poll quiet
  apply (readEntry_reads quiet free bound).andThen
  rintro place later stays ⟨mapPage, at_map, -, rfl⟩
  have quiet' := stays.undisturbed quiet
  have free' := stays.held_eq.trans free
  have again : later.Reads (RangeMap.findFrom heapBlock block index (some (entryAt mapPage index)) (rounds + 1))
      fun _ _ => True := findFrom_again quiet' free' bound (stays.image_eq ▸ at_map)
  split
  · exact .done trivial
  apply World.Reads.pin quiet'
  intro page at_block
  apply World.Reads.view free'
  intro page' at_block'
  split
  · rename_i regular
    split
    · exact .done trivial
    apply summaryAt_reads at_block' regular
    intro summary
    cases summary with
    | none => exact again
    | some summary =>
        simp only
        split
        · exact .done trivial
        · exact again
  · exact again

/-- Looking for the summary of the range of a table block. -/
theorem find_reads (quiet : world.Undisturbed) (free : world.held = []) (fuel : 2 ^ 32 < rounds)
    (divisible : world.accessor.addressing.pagesPerRange ≠ 0) :
    world.Reads (RangeMap.find rounds heapBlock) fun _ _ => True := by
  obtain ⟨start, start_eq⟩ := Addressing.rangeStart_ok divisible heapBlock
  obtain ⟨index, bound, index_eq⟩ := Addressing.entryIndex_ok divisible start
  obtain ⟨rest, rfl⟩ : ∃ rest, rounds = rest + 2 := ⟨rounds - 2, by omega⟩
  simp only [RangeMap.find]
  apply World.Reads.accessor
  apply World.Reads.lift_ok start_eq
  apply (lookup_reads quiet free fuel divisible).andThen
  rintro found later stays -
  cases found with
  | none => exact .done trivial
  | some block =>
      apply World.Reads.lift_ok index_eq
      exact findFrom_reads (stays.undisturbed quiet) (stays.held_eq.trans free) bound

/-- Nothing can be found for ranges of no blocks. -/
theorem find_undivided {fails : Failure → World → Prop} {post : Option FoundSummary → World → Prop}
    (undivided : world.accessor.addressing.pagesPerRange = 0) :
    Results fails post (RangeMap.find rounds heapBlock) world ↔ fails (.fault .divisionByZero) world := by
  change Results _ _ (liftM (world.accessor.addressing.rangeStart heapBlock) >>= _) world ↔ _
  rw [Addressing.rangeStart_undivided undivided, results_lift_fault]

/-- An entry that points at an item that reaches past the end of its page is followed there. -/
theorem findFrom_overruns {index : Nat} {mapPage : Page} (quiet : world.Undisturbed) (free : world.held = [])
    (bound : index < entriesPerPage) (at_map : world.image.page? block = some mapPage) (map : isMap mapPage = true)
    (valid : (entryAt mapPage index).isValid = true)
    (at_block : world.image.page? (entryAt mapPage index).block = some page) (regular : isRegular page = true)
    (high : (entryAt mapPage index).offset.toNat ≤ page.maxOffset)
    (overruns : page.Overruns (entryAt mapPage index).offset.toNat) :
    Results (fun failure _ => failure = .fault .outOfBounds) (fun _ _ => False)
      (RangeMap.findFrom heapBlock block index none (rounds + 1)) world := by
  have alone : (world.keeping block).relation.interference = .none := quiet.alone
  have unlocked : ∀ other, other ∉ (world.keeping block).held := World.unlocked_of_free free
  have at_block' : (world.keeping block).image.page? (entryAt mapPage index).block = some page := at_block
  rw [RangeMap.findFrom, results_poll quiet.running, results_readEntry quiet.alone (unlocked _) at_map map bound,
    if_neg (by simp [valid]), if_neg (by simp), results_pin alone at_block', results_view (unlocked _) at_block',
    if_pos regular, if_neg (Nat.not_lt.mpr high), RangeMap.summaryAt, overruns.item_eq]
  exact rfl

/-! ## Finding a summary in an index that was just opened -/

/-- Open the index and look for the summary of the range of a table block. -/
def findOpening (index : String) (rounds : Nat) (heapBlock : BlockNumber) : Procedure (Option FoundSummary) := do
  openIndex index
  RangeMap.find rounds heapBlock

/-- The metapage can be read, and this is what it says. -/
def Image.Opens (image : Image) (index : String) (contents : Metapage) : Prop :=
  ∃ page, image.page? metaBlock = some page ∧ Metapage.read page index metaBlock = .ok contents

theorem openIndex_reads {index : String} (quiet : world.Undisturbed) (free : world.held = []) :
    world.Reads (openIndex index) fun _ later => ∃ contents, world.image.Opens index contents ∧
      later.accessor = .ofMetapage index contents := by
  simp only [openIndex]
  apply World.Reads.pin quiet
  intro page at_meta
  apply World.Reads.view free
  intro page at_meta
  cases read : Metapage.read page index metaBlock with
  | error cause => exact results_lift_error.mpr ⟨.refl world, .reported cause⟩
  | ok contents =>
      have running : (Accessor.ofMetapage index contents).cancelled = world.accessor.cancelled := quiet.running.symm
      exact ⟨⟨rfl, running⟩, contents, ⟨page, at_meta, read⟩, rfl⟩

/-- Whatever the pages hold, a user who opens the index and asks for the summary of a range gets an answer or is told
what is wrong, unless a walk comes to a page that links to itself or an item reaches past the end of its page. This is
so for ranges of any length but zero, and changes nothing. -/
theorem findOpening_reads {index : String} (quiet : world.Undisturbed) (free : world.held = []) (fuel : 2 ^ 32 < rounds)
    (divisible : ∀ contents, world.image.Opens index contents → contents.pagesPerRange ≠ 0) :
    world.Reads (findOpening index rounds heapBlock) fun _ _ => True := by
  rw [findOpening]
  apply (openIndex_reads quiet free).andThen
  rintro - later stays ⟨contents, opens, accessor_eq⟩
  apply find_reads (stays.undisturbed quiet) (stays.held_eq.trans free) fuel
  rw [accessor_eq]
  exact divisible contents opens

/-- On pages whose items stay where they are and whose links lead elsewhere, the user gets an answer or is told what
is wrong. -/
theorem findOpening_answers {index : String} (quiet : world.Undisturbed) (free : world.held = [])
    (fuel : 2 ^ 32 < rounds)
    (divisible : ∀ contents, world.image.Opens index contents → contents.pagesPerRange ≠ 0)
    (inside : ∀ block page offset, world.image.page? block = some page → isRegular page = true →
      ¬ page.Overruns offset)
    (unlinked : ∀ block, ¬ SelfLinked world.image block) :
    Results (fun failure later => world.Stays later ∧ ∃ cause, failure = .error cause)
      (fun _ later => world.Stays later)
      (findOpening index rounds heapBlock) world := by
  apply Results.mono (findOpening_reads quiet free fuel divisible)
  · exact fun _ _ ended => ended.1
  · rintro failure later ⟨stays, spoils⟩
    cases spoils with
    | reported cause => exact ⟨stays, cause, rfl⟩
    | overrun at_block regular overruns => exact absurd overruns (inside _ _ _ at_block regular)
    | endless linked => exact absurd linked (unlinked _)

/-- The length of a range is not checked when the metapage is read, and a length of zero is divided by. -/
theorem findOpening_undivided {index : String} {contents : Metapage} (quiet : world.Undisturbed)
    (free : world.held = []) (opens : world.image.Opens index contents) (undivided : contents.pagesPerRange = 0) :
    Results (fun failure later => failure = .fault .divisionByZero ∧ world.Stays later) (fun _ _ => False)
      (findOpening index rounds heapBlock) world := by
  obtain ⟨page, at_meta, read⟩ := opens
  rw [findOpening, results_bind, openIndex, results_pin quiet.alone at_meta,
    results_view (World.unlocked_of_free free _) at_meta, read, results_lift_value, results_remember_last,
    find_undivided undivided]
  exact ⟨rfl, rfl, quiet.running.symm⟩

end Reading

end RangeIndex

end Warehouse
