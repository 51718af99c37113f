import Warehouse.Proofs.RangeIndex.Geometry
import Warehouse.RangeIndex.Chains

/-! # Changing the shape of an index

`SameMap` relates two images whose range maps have the same pages with the same links; all
that the geometry says carries over. The range map itself changes in two ways only: a plain
one grows by the block after its last page, and a chain grows by a page at its end. Neither
moves an entry, which is what `Grows` says. -/

namespace Warehouse.RangeIndex

/-- The images have the same metapage and the same range map pages with the same links. -/
structure SameMap (image after : Image) : Prop where
  small : after.size < 2 ^ 32
  metapage : ∀ page, image.page? metaBlock = some page → after.page? metaBlock = some page
  kinds : ∀ block page, block ≠ metaBlock → after.page? block = some page →
    page = .zero ∨ Regular page ∨ MapPage page
  maps : ∀ block page, image.page? block = some page → MapPage page →
    ∃ page', after.page? block = some page' ∧ MapPage page' ∧ nextMapPage page' = nextMapPage page ∧
      logicalPageOf page' = logicalPageOf page
  back : ∀ block page, after.page? block = some page → MapPage page →
    ∃ page', image.page? block = some page' ∧ MapPage page'

/-- The page is replaced by one that plays the same part in the range map. -/
inductive Recast (page page' : Page) : Prop
  | regular (before : ¬ MapPage page) (after : Regular page')
  | map (before : MapPage page) (after : MapPage page') (next : nextMapPage page' = nextMapPage page)
      (number : logicalPageOf page' = logicalPageOf page)

namespace SameMap

variable {image after last : Image} {contents : Metapage} {first stop block heapBlock : BlockNumber}
  {pages : List BlockNumber} {sequence : Nat} {number : UInt32}

theorem trans (h : SameMap image after) (h' : SameMap after last) : SameMap image last where
  small := h'.small
  metapage page at' := h'.metapage page (h.metapage page at')
  kinds := h'.kinds
  maps block page at' map := by
    obtain ⟨page', at'', map', next, number⟩ := h.maps block page at' map
    obtain ⟨page'', at''', map'', next', number'⟩ := h'.maps block page' at'' map'
    exact ⟨page'', at''', map'', next'.trans next, number'.trans number⟩
  back block page at' map := by
    obtain ⟨page', at'', map'⟩ := h'.back block page at' map
    exact h.back block page' at'' map'

/-- The links are the same in both directions. -/
theorem links_back (h : SameMap image after) {page : Page} (at' : after.page? block = some page)
    (map : MapPage page) : ∃ page', image.page? block = some page' ∧ MapPage page' ∧
      nextMapPage page' = nextMapPage page ∧ logicalPageOf page' = logicalPageOf page := by
  obtain ⟨page', at'', map'⟩ := h.back block page at' map
  obtain ⟨same, at''', -, next, number⟩ := h.maps block page' at'' map'
  rw [at'] at at'''
  obtain rfl := Option.some.inj at'''
  exact ⟨page', at'', map', next.symm, number.symm⟩

theorem segment (h : SameMap image after) :
    Segment image first pages stop ↔ Segment after first pages stop := by
  constructor
  · intro segment
    refine segment.congr fun block _ page at' map => ?_
    obtain ⟨page', at'', map', next, -⟩ := h.maps block page at' map
    exact ⟨page', at'', map', next⟩
  · intro segment
    refine segment.congr fun block _ page at' map => ?_
    obtain ⟨page', at'', map', next, -⟩ := h.links_back at' map
    exact ⟨page', at'', map', next⟩

theorem numberOf_eq (h : SameMap image after) (inside : Segment image first pages stop)
    (mem : block ∈ pages) : numberOf after block = numberOf image block := by
  obtain ⟨page, at', map⟩ := inside.exists_page mem
  obtain ⟨page', at'', -, -, number⟩ := h.maps block page at' map
  rw [RangeIndex.numberOf_eq at', RangeIndex.numberOf_eq at'', number]

theorem inChain (h : SameMap image after) :
    InChain after contents sequence block number ↔ InChain image contents sequence block number := by
  constructor
  · rintro ⟨pages, segment, mem, rfl⟩
    have segment := h.segment.mpr segment
    exact ⟨pages, segment, mem, (h.numberOf_eq segment mem).symm⟩
  · rintro ⟨pages, segment, mem, rfl⟩
    exact ⟨pages, h.segment.mp segment, mem, h.numberOf_eq segment mem⟩

theorem covers (h : SameMap image after) :
    Covers after contents heapBlock block ↔ Covers image contents heapBlock block := by
  simp only [Covers, h.inChain]

theorem laid (h : SameMap image after) {chain : Chain} (laid : Laid image chain pages) :
    Laid after chain pages := by
  have numbers : ∀ block ∈ pages, numberOf after block = numberOf image block := fun block mem =>
    h.numberOf_eq laid.segment mem
  refine ⟨h.segment.mp laid.segment, ?_, fun block mem => ?_, ?_⟩
  · refine laid.ascending.imp_of_mem fun {block later} mem mem' lt => ?_
    rw [numbers block mem, numbers later mem']
    exact lt
  · rw [numbers block mem]
    exact laid.positive block mem
  · rcases laid.ends with empty | ⟨front, eq, last⟩
    · exact .inl empty
    · refine .inr ⟨front, eq, ?_⟩
      rw [numbers _ (by rw [eq]; simp), last]

/-- The layout carries over. -/
theorem geometry (h : SameMap image after) (shape : Geometry image contents) :
    Geometry after contents where
  small := h.small
  metapage := by
    obtain ⟨page, at', holds⟩ := shape.metapage
    exact ⟨page, h.metapage page at', holds⟩
  valid := shape.valid
  kinds := h.kinds
  plain kind block := by
    rw [← shape.plain kind block]
    constructor
    · rintro ⟨page, at', map⟩
      exact h.back block page at' map
    · rintro ⟨page, at', map⟩
      obtain ⟨page', at'', map', -, -⟩ := h.maps block page at' map
      exact ⟨page', at'', map'⟩
  chained kind := by
    obtain ⟨pages, chained⟩ := shape.chained kind
    refine ⟨pages, fun sequence bound => h.laid (chained.laid sequence bound), fun block page at' map => ?_,
      chained.disjoint⟩
    obtain ⟨page', at'', map'⟩ := h.back block page at' map
    exact chained.member block page' at'' map'

end SameMap

/-- A map page is not a page of zeros. -/
theorem MapPage.ne_zero {page : Page} (map : MapPage page) : page ≠ .zero := by
  rintro rfl
  have ready := map.ready
  rw [Page.isNew_zero] at ready
  cases ready

/-- A map page is not where a page of zeros is. -/
theorem MapPage.ne_of_zero {image : Image} {page : Page} {block other : BlockNumber} (map : MapPage page)
    (at_page : image.page? block = some page) (free : image.page? other = some .zero) : block ≠ other := by
  rintro rfl
  exact map.ne_zero (Option.some.inj (at_page.symm.trans free))

namespace Geometry

variable {image : Image} {contents : Metapage} {block : BlockNumber} {page page' : Page}

/-- Every page stays as it is or is replaced by one that plays the same part. -/
theorem sameMap_of_recast (shape : Geometry image contents) {after : Image} (size : after.size = image.size)
    (pages : ∀ block, after.page? block = image.page? block ∨ block ≠ metaBlock ∧ ∃ page page',
      image.page? block = some page ∧ after.page? block = some page' ∧ Recast page page') :
    SameMap image after where
  small := by rw [size]; exact shape.small
  metapage page at' := by
    rcases pages metaBlock with same | ⟨ne, -⟩
    · rw [same, at']
    · exact absurd rfl ne
  kinds block page ne at' := by
    rcases pages block with same | ⟨-, before, page', -, at'', recast⟩
    · rw [same] at at'
      exact shape.kinds block page ne at'
    · rw [at'] at at''
      obtain rfl := Option.some.inj at''
      cases recast with
      | regular _ after => exact .inr (.inl after)
      | map _ after _ _ => exact .inr (.inr after)
  maps block page at' map := by
    rcases pages block with same | ⟨-, before, page', at'', at''', recast⟩
    · exact ⟨page, by rw [same, at'], map, rfl, rfl⟩
    · rw [at'] at at''
      obtain rfl := Option.some.inj at''
      cases recast with
      | regular before _ => exact absurd map before
      | map _ after next number => exact ⟨page', at''', after, next, number⟩
  back block page at' map := by
    rcases pages block with same | ⟨-, before, page', at'', at''', recast⟩
    · exact ⟨page, by rw [← same, at'], map⟩
    · rw [at'] at at'''
      obtain rfl := Option.some.inj at'''
      cases recast with
      | regular _ after => exact absurd map after.not_map
      | map before' _ _ _ => exact ⟨before, at'', before'⟩

theorem sameMap_put (shape : Geometry image contents) (first : block ≠ metaBlock)
    (at' : image.page? block = some page) (recast : Recast page page') :
    SameMap image (image.put block page') := by
  refine shape.sameMap_of_recast (Image.size_put ..) fun other => ?_
  by_cases eq : other = block
  · subst eq
    exact .inr ⟨first, page, page', at', Image.page?_put_same _ at', recast⟩
  · exact .inl (Image.page?_put_other eq)

theorem sameMap_push (shape : Geometry image contents) (room : image.size + 1 < 2 ^ 32) :
    SameMap image (image.push .zero) := by
  have old : ∀ {other : BlockNumber} {page : Page}, image.page? other = some page →
      Image.page? (image.push .zero) other = some page := fun at' => by
    rw [Image.page?_push_old (Image.lt_of_page? at'), at']
  have back : ∀ {other : BlockNumber} {page : Page}, Image.page? (image.push .zero) other = some page →
      page = .zero ∨ image.page? other = some page := fun {other page} at' => by
    by_cases inside : other.toNat < image.size
    · rw [Image.page?_push_old inside] at at'
      exact .inr at'
    · have bound := Image.lt_of_page? at'
      rw [Array.size_push] at bound
      rw [Image.page?_push_new (by omega)] at at'
      exact .inl (Option.some.inj at').symm
  refine ⟨by rw [Array.size_push]; exact room, fun _ => old, fun other page ne at' => ?_,
    fun other page at' map => ⟨page, old at', map, rfl, rfl⟩, fun other page at' map => ?_⟩
  · rcases back at' with zero | at'
    · exact .inl zero
    · exact shape.kinds other page ne at'
  · rcases back at' with rfl | at'
    · exact absurd rfl map.ne_zero
    · exact ⟨page, at', map⟩

end Geometry

/-! ## Extending the range map -/

/-- The range map of the later image reaches at least as far, and every page that it had is
still where it was. -/
structure Grows (image : Image) (contents : Metapage) (after : Image) (contents' : Metapage) : Prop where
  size_le : image.size ≤ after.size
  addressing_eq : contents'.addressing = contents.addressing
  last_le : contents.lastMapPage ≤ contents'.lastMapPage
  first_eq : ∀ sequence, (contents.chain sequence).first ≠ invalidBlock →
    (contents'.chain sequence).first = (contents.chain sequence).first
  inChain : ∀ {sequence block number}, sequence < sequenceCount →
    InChain image contents sequence block number → InChain after contents' sequence block number

namespace Grows

variable {image after last : Image} {contents contents' contents'' : Metapage}
  {heapBlock block : BlockNumber}

theorem refl (image : Image) (contents : Metapage) : Grows image contents image contents :=
  ⟨Nat.le_refl _, rfl, UInt32.le_refl _, fun _ _ => rfl, fun _ inside => inside⟩

theorem trans (h : Grows image contents after contents') (h' : Grows after contents' last contents'') :
    Grows image contents last contents'' where
  size_le := Nat.le_trans h.size_le h'.size_le
  addressing_eq := h'.addressing_eq.trans h.addressing_eq
  last_le := UInt32.le_trans h.last_le h'.last_le
  first_eq sequence ne := by
    have first := h.first_eq sequence ne
    exact (h'.first_eq sequence (by rwa [first])).trans first
  inChain bound inside := h'.inChain bound (h.inChain bound inside)

theorem of_sameMap (h : SameMap image after) (size : image.size ≤ after.size) :
    Grows image contents after contents :=
  ⟨size, rfl, UInt32.le_refl _, fun _ _ => rfl, fun _ inside => h.inChain.mpr inside⟩

theorem covers (h : Grows image contents after contents') (covered : Covers image contents heapBlock block) :
    Covers after contents' heapBlock block := by
  have addressing := h.addressing_eq
  have kind : contents'.appendOnly = contents.appendOnly := congrArg Addressing.appendOnly addressing
  rw [Covers, kind, addressing]
  rw [Covers] at covered
  split
  · rename_i chained
    rw [if_pos chained] at covered
    exact h.inChain (sequenceOf_lt _) covered
  · rename_i plain
    rw [if_neg plain] at covered
    exact ⟨covered.1, UInt32.le_trans covered.2 h.last_le⟩

end Grows

section ExtendPlain

variable {image after : Image} {contents : Metapage} {block : BlockNumber} {page metapage mapPage : Page}

/-- A plain range map grows by the block after its last page, which holds no entries yet. -/
structure PlainGrowth (image after : Image) (contents : Metapage) (block : BlockNumber)
    (metapage mapPage : Page) : Prop where
  plain : contents.appendOnly = false
  next : block.toNat = contents.lastMapPage.toNat + 1
  size_eq : after.size = image.size
  metapage_eq : after.page? metaBlock = some metapage
  holds : Metapage.Holds metapage { contents with lastMapPage := block }
  block_eq : after.page? block = some mapPage
  map : MapPage mapPage
  others : ∀ other, other ≠ metaBlock → other ≠ block → after.page? other = image.page? other

theorem PlainGrowth.geometry (growth : PlainGrowth image after contents block metapage mapPage)
    (shape : Geometry image contents) : Geometry after { contents with lastMapPage := block } := by
  have first : block ≠ metaBlock := by
    rintro rfl
    have := growth.next
    simp [metaBlock] at this
  refine ⟨by rw [growth.size_eq]; exact shape.small, ⟨_, growth.metapage_eq, growth.holds⟩, shape.valid,
    fun other page ne at' => ?_, fun _ other => ?_, fun chained => ?_⟩
  · by_cases eq : other = block
    · rw [eq, growth.block_eq] at at'
      obtain rfl := Option.some.inj at'
      exact .inr (.inr growth.map)
    · rw [growth.others other ne eq] at at'
      exact shape.kinds other page ne at'
  · have before := shape.plain growth.plain other
    by_cases zero : other = metaBlock
    · subst zero
      simp only [ne_eq, not_true_eq_false, false_and, iff_false]
      rintro ⟨page, at', map⟩
      rw [growth.metapage_eq] at at'
      obtain rfl := Option.some.inj at'
      exact absurd ((Metapage.holds_iff.mp growth.holds).1.symm.trans map.kind) (by decide)
    · by_cases eq : other = block
      · subst eq
        exact ⟨fun _ => ⟨zero, UInt32.le_refl _⟩, fun _ => ⟨_, growth.block_eq, growth.map⟩⟩
      · rw [growth.others other zero eq, before]
        have next := growth.next
        have apart : other.toNat ≠ block.toNat := fun h => eq (UInt32.toNat_inj.mp h)
        simp only [UInt32.le_iff_toNat_le]
        constructor
        · rintro ⟨ne, le⟩
          exact ⟨ne, by omega⟩
        · rintro ⟨ne, le⟩
          exact ⟨ne, by omega⟩
  · exact absurd (chained.symm.trans growth.plain) (by decide)

/-- Segments of a plain index are of no account: they do not lead through the new page. -/
theorem PlainGrowth.grows (growth : PlainGrowth image after contents block metapage mapPage)
    (shape : Geometry image contents) :
    Grows image contents after { contents with lastMapPage := block } := by
  have next := growth.next
  refine ⟨Nat.le_of_eq growth.size_eq.symm, rfl, UInt32.le_iff_toNat_le.mpr (by simp only; omega),
    fun _ _ => rfl, ?_⟩
  rintro sequence other number bound ⟨pages, segment, mem, rfl⟩
  have same : ∀ other page, image.page? other = some page → MapPage page →
      after.page? other = some page := by
    intro other page at' map
    have inside := (shape.plain growth.plain other).mp ⟨page, at', map⟩
    rw [growth.others other inside.1 ?_, at']
    rintro rfl
    have := UInt32.le_iff_toNat_le.mp inside.2
    omega
  refine ⟨pages, segment.congr fun other _ page at' map => ⟨page, same other page at' map, map, rfl⟩, mem, ?_⟩
  obtain ⟨page, at', map⟩ := segment.exists_page mem
  rw [numberOf_eq at', numberOf_eq (same other page at' map)]

end ExtendPlain

section ExtendChain

/-- The chain with a page added at its end. -/
def Chain.grown (chain : Chain) (block : BlockNumber) (number : UInt32) : Chain :=
  ⟨if chain.last = invalidBlock then block else chain.first, block, number⟩

/-- A chain grows by a page of zeros that becomes its last one. -/
structure ChainGrowth (image after : Image) (contents contents' : Metapage) (sequence : Nat)
    (block : BlockNumber) (number : UInt32) (metapage mapPage : Page) : Prop where
  chained : contents.appendOnly = true
  bound : sequence < sequenceCount
  contents_eq : contents' = { contents with
    chains := Chains.setChain contents.chains sequence ((contents.chain sequence).grown block number) }
  beyond : (contents.chain sequence).lastLogical < number
  free : image.page? block = some .zero
  size_eq : after.size = image.size
  metapage_eq : after.page? metaBlock = some metapage
  holds : Metapage.Holds metapage contents'
  block_eq : after.page? block = some mapPage
  map : MapPage mapPage
  ends : nextMapPage mapPage = invalidBlock
  number_eq : logicalPageOf mapPage = number
  tail : ∀ page, image.page? (contents.chain sequence).last = some page →
    ∃ page', after.page? (contents.chain sequence).last = some page' ∧ MapPage page' ∧
      nextMapPage page' = block ∧ logicalPageOf page' = logicalPageOf page
  others : ∀ other, other ≠ metaBlock → other ≠ block → other ≠ (contents.chain sequence).last →
    after.page? other = image.page? other

namespace ChainGrowth

variable {image after : Image} {contents contents' : Metapage} {sequence : Nat} {block : BlockNumber}
  {number : UInt32} {metapage mapPage : Page}

theorem chain_same (growth : ChainGrowth image after contents contents' sequence block number metapage mapPage) :
    contents'.chain sequence = (contents.chain sequence).grown block number := by
  have bound := growth.bound
  rw [Metapage.chain, growth.contents_eq]
  simp only [Chains.setChain, Vector.getElem?_setIfInBounds_self, bound, if_true, Option.getD_some]

theorem chain_other (growth : ChainGrowth image after contents contents' sequence block number metapage mapPage)
    {other : Nat} (ne : other ≠ sequence) : contents'.chain other = contents.chain other := by
  rw [Metapage.chain, growth.contents_eq]
  simp only [Chains.setChain, Vector.getElem?_setIfInBounds_ne ne.symm, Metapage.chain]

variable {lay : Nat → List BlockNumber}

/-- The pages of all chains but the last page of the growing one stay as they were. -/
theorem page_same (growth : ChainGrowth image after contents contents' sequence block number metapage mapPage)
    (shape : Geometry image contents) {other : BlockNumber} {page : Page} (at' : image.page? other = some page)
    (map : MapPage page) (ne : other ≠ (contents.chain sequence).last) : after.page? other = some page := by
  rw [growth.others other ?_ ?_ ne, at']
  · rintro rfl
    exact absurd ((shape.metaType_of at').1.symm.trans map.kind) (by decide)
  · exact map.ne_of_zero at' growth.free

/-- The numbers of all pages of chains stay as they were. -/
theorem number_same (growth : ChainGrowth image after contents contents' sequence block number metapage mapPage)
    (shape : Geometry image contents) {other : BlockNumber} {page : Page} (at' : image.page? other = some page)
    (map : MapPage page) : numberOf after other = numberOf image other := by
  by_cases eq : other = (contents.chain sequence).last
  · subst eq
    obtain ⟨page', at'', -, -, same⟩ := growth.tail page at'
    rw [numberOf_eq at', numberOf_eq at'', same]
  · rw [numberOf_eq at', numberOf_eq (growth.page_same shape at' map eq)]

theorem number_block (growth : ChainGrowth image after contents contents' sequence block number metapage mapPage) :
    numberOf after block = number := by
  rw [numberOf_eq growth.block_eq, growth.number_eq]

theorem not_mem (growth : ChainGrowth image after contents contents' sequence block number metapage mapPage)
    {first stop : BlockNumber} {pages : List BlockNumber} (segment : Segment image first pages stop) :
    block ∉ pages := by
  intro mem
  obtain ⟨page, at', map⟩ := segment.exists_page mem
  exact map.ne_of_zero at' growth.free rfl

/-- The growing chain has the new page at its end. -/
theorem laid_same (growth : ChainGrowth image after contents contents' sequence block number metapage mapPage)
    (shape : Geometry image contents) {pages : List BlockNumber}
    (laid : Laid image (contents.chain sequence) pages) :
    Laid after (contents'.chain sequence) (pages ++ [block]) := by
  obtain ⟨segment, ascending, positive, ends⟩ := laid
  have numbers : ∀ other ∈ pages, numberOf after other = numberOf image other := fun other mem => by
    obtain ⟨page, at', map⟩ := segment.exists_page mem
    exact growth.number_same shape at' map
  have last_segment : Segment after block [block] invalidBlock := by
    refine .cons growth.block_eq growth.map ?_
    rw [growth.ends]
    exact .nil _
  have below : ∀ other ∈ pages, numberOf image other ≤ (contents.chain sequence).lastLogical := by
    intro other mem
    rcases ends with ⟨rfl, -⟩ | ⟨front, rfl, last⟩
    · exact absurd mem List.not_mem_nil
    · rcases List.mem_append.mp mem with mem | mem
      · have := (List.pairwise_append.mp ascending).2.2 other mem _ List.mem_cons_self
        rw [last] at this
        exact UInt32.le_of_lt this
      · rw [List.mem_singleton.mp mem, last]
        exact UInt32.le_refl _
  rw [growth.chain_same]
  refine ⟨?_, ?_, ?_, .inr ⟨pages, rfl, growth.number_block⟩⟩
  · rcases ends with ⟨rfl, empty⟩ | ⟨front, rfl, last⟩
    · simp only [Chain.grown, empty, Chain.empty, if_true, List.nil_append]
      exact last_segment
    · obtain ⟨left, right⟩ := segment.split_at
      cases right with
      | cons at' map rest =>
          have ne := Image.ne_invalid shape.small at'
          obtain ⟨tail, at'', map', next, -⟩ := growth.tail _ at'
          simp only [Chain.grown, if_neg ne]
          have extended : Segment after block [block] invalidBlock := last_segment
          refine (Segment.append (left.congr fun other mem page at' map => ⟨page, ?_, map, rfl⟩)
            (.cons at'' map' ?_)).append extended
          · refine growth.page_same shape at' map ?_
            rintro rfl
            have := (List.pairwise_append.mp ascending).2.2 _ mem _ List.mem_cons_self
            exact absurd this (UInt32.lt_irrefl _)
          · rw [next]
            exact .nil _
  · rw [List.pairwise_append]
    refine ⟨ascending.imp_of_mem fun {a b} mem mem' lt => ?_, List.pairwise_singleton _ _,
      fun other mem later mem' => ?_⟩
    · rw [numbers a mem, numbers b mem']
      exact lt
    · rw [List.mem_singleton.mp mem', numbers other mem, growth.number_block]
      exact UInt32.lt_of_le_of_lt (below other mem) growth.beyond
  · intro other mem
    rcases List.mem_append.mp mem with mem | mem
    · rw [numbers other mem]
      exact positive other mem
    · rw [List.mem_singleton.mp mem, growth.number_block]
      rintro rfl
      exact absurd growth.beyond (UInt32.not_lt_zero)

/-- The other chains have the pages that they had. -/
theorem laid_other (growth : ChainGrowth image after contents contents' sequence block number metapage mapPage)
    (shape : Geometry image contents) (chained : Chained image contents lay) {other : Nat}
    (bound : other < sequenceCount) (ne : other ≠ sequence) :
    Laid after (contents'.chain other) (lay other) := by
  obtain ⟨segment, ascending, positive, ends⟩ := chained.laid other bound
  have numbers : ∀ block ∈ lay other, numberOf after block = numberOf image block := fun block mem => by
    obtain ⟨page, at', map⟩ := segment.exists_page mem
    exact growth.number_same shape at' map
  rw [growth.chain_other ne]
  refine ⟨segment.congr fun block mem page at' map => ⟨page, growth.page_same shape at' map ?_, map, rfl⟩,
    ascending.imp_of_mem fun {a b} mem mem' lt => ?_, fun block mem => ?_, ?_⟩
  · rintro rfl
    rcases (chained.laid sequence growth.bound).ends with ⟨-, empty⟩ | ⟨front, eq, -⟩
    · rw [empty] at at'
      exact Image.ne_invalid shape.small at' rfl
    · exact ne (chained.disjoint _ _ _ bound growth.bound mem (by rw [eq]; simp))
  · rw [numbers a mem, numbers b mem']
    exact lt
  · rw [numbers block mem]
    exact positive block mem
  · rcases ends with empty | ⟨front, eq, last⟩
    · exact .inl empty
    · refine .inr ⟨front, eq, ?_⟩
      rw [numbers _ (by rw [eq]; simp), last]

theorem geometry (growth : ChainGrowth image after contents contents' sequence block number metapage mapPage)
    (shape : Geometry image contents) : Geometry after contents' := by
  obtain ⟨lay, chained⟩ := shape.chained growth.chained
  have kind : contents'.appendOnly = true := by rw [growth.contents_eq]; exact growth.chained
  have before : ∀ other page, other ≠ metaBlock → after.page? other = some page → other ≠ block →
      (image.page? other = some page ∧ other ≠ (contents.chain sequence).last) ∨
      (other = (contents.chain sequence).last ∧ MapPage page) := by
    intro other page ne at' ne'
    by_cases eq : other = (contents.chain sequence).last
    · right
      refine ⟨eq, ?_⟩
      have inside : other.toNat < image.size := by
        rw [← growth.size_eq]
        exact Image.lt_of_page? at'
      obtain ⟨page', at''⟩ := Image.exists_page? inside
      rw [eq] at at'' at'
      obtain ⟨tail, at''', map, -⟩ := growth.tail page' at''
      rw [at'] at at'''
      obtain rfl := Option.some.inj at'''
      exact map
    · rw [growth.others other ne ne' eq] at at'
      exact .inl ⟨at', eq⟩
  refine ⟨by rw [growth.size_eq]; exact shape.small, ⟨_, growth.metapage_eq, growth.holds⟩, ?_,
    fun other page ne at' => ?_, fun plain => ?_, fun _ => ?_⟩
  · rw [growth.contents_eq]
    exact shape.valid
  · by_cases eq : other = block
    · rw [eq, growth.block_eq] at at'
      obtain rfl := Option.some.inj at'
      exact .inr (.inr growth.map)
    · rcases before other page ne at' eq with ⟨at', -⟩ | ⟨-, map⟩
      · exact shape.kinds other page ne at'
      · exact .inr (.inr map)
  · exact absurd (kind.symm.trans plain) (by decide)
  · have fresh : ∀ other < sequenceCount, block ∉ lay other := fun other bound =>
      growth.not_mem (chained.laid other bound).segment
    refine ⟨fun other => if other = sequence then lay other ++ [block] else lay other, fun other bound => ?_,
      fun other page at' map => ?_, fun member first second bound bound' mem mem' => ?_⟩
    · by_cases eq : other = sequence
      · subst eq
        simp only [if_true]
        exact growth.laid_same shape (chained.laid other bound)
      · simp only [eq, if_false]
        exact growth.laid_other shape chained bound eq
    · by_cases eq : other = block
      · exact ⟨sequence, growth.bound, by simp [eq]⟩
      · have ne : other ≠ metaBlock := by
          rintro rfl
          rw [growth.metapage_eq] at at'
          obtain rfl := Option.some.inj at'
          exact absurd ((Metapage.holds_iff.mp growth.holds).1.symm.trans map.kind) (by decide)
        have old : ∃ chain < sequenceCount, other ∈ lay chain := by
          rcases before other page ne at' eq with ⟨at', -⟩ | ⟨rfl, -⟩
          · exact chained.member other page at' map
          · rcases (chained.laid sequence growth.bound).ends with ⟨-, empty⟩ | ⟨front, eq, -⟩
            · have inside := Image.lt_of_page? at'
              rw [growth.size_eq, empty] at inside
              obtain ⟨page', at''⟩ := Image.exists_page? inside
              exact absurd rfl (Image.ne_invalid shape.small at'')
            · exact ⟨sequence, growth.bound, by rw [eq]; simp⟩
        obtain ⟨chain, bound, mem⟩ := old
        refine ⟨chain, bound, ?_⟩
        split
        · exact List.mem_append_left _ mem
        · exact mem
    · by_cases eq : member = block
      · subst eq
        have only : ∀ chain < sequenceCount,
            member ∈ (if chain = sequence then lay chain ++ [member] else lay chain) → chain = sequence := by
          intro chain bound mem
          split at mem
          · assumption
          · exact absurd mem (fresh chain bound)
        rw [only first bound mem, only second bound' mem']
      · have strip : ∀ chain, member ∈ (if chain = sequence then lay chain ++ [block] else lay chain) →
            member ∈ lay chain := by
          intro chain mem
          split at mem
          · rcases List.mem_append.mp mem with mem | mem
            · exact mem
            · exact absurd (List.mem_singleton.mp mem) eq
          · exact mem
        exact chained.disjoint member first second bound bound' (strip first mem) (strip second mem')

theorem grows (growth : ChainGrowth image after contents contents' sequence block number metapage mapPage)
    (shape : Geometry image contents) : Grows image contents after contents' := by
  obtain ⟨lay, chained⟩ := shape.chained growth.chained
  have shape' := growth.geometry shape
  refine ⟨Nat.le_of_eq growth.size_eq.symm, by rw [growth.contents_eq]; rfl,
    by rw [growth.contents_eq]; exact UInt32.le_refl _, fun other ne => ?_,
    fun {other member number'} bound inside => ?_⟩
  · by_cases eq : other = sequence
    · subst eq
      rcases shape.chain_ends growth.chained growth.bound with ⟨empty, -⟩ | ⟨-, last, -⟩
      · rw [empty] at ne
        exact absurd rfl ne
      · obtain ⟨page, at', -⟩ := Geometry.inChain_page last
        rw [growth.chain_same, Chain.grown, if_neg (Image.ne_invalid shape.small at')]
    · rw [growth.chain_other eq]
  · obtain ⟨mem, rfl⟩ := (shape.inChain_iff chained bound).mp inside
    obtain ⟨page, at', map⟩ := (chained.laid other bound).segment.exists_page mem
    have same := growth.number_same shape at' map
    by_cases eq : other = sequence
    · subst eq
      exact ⟨_, (growth.laid_same shape (chained.laid other bound)).segment, List.mem_append_left _ mem, same⟩
    · exact ⟨_, (growth.laid_other shape chained bound eq).segment, mem, same⟩

/-- The new page is in the chain, and no other page is new. -/
theorem inChain_iff (growth : ChainGrowth image after contents contents' sequence block number metapage mapPage)
    (shape : Geometry image contents) {other : Nat} (bound : other < sequenceCount) {member : BlockNumber}
    {number' : UInt32} : InChain after contents' other member number' ↔
      InChain image contents other member number' ∨ (other = sequence ∧ member = block ∧ number' = number) := by
  obtain ⟨lay, chained⟩ := shape.chained growth.chained
  constructor
  · intro inside
    have shape' := growth.geometry shape
    have old : member ∈ lay other → InChain image contents other member number' := by
      intro mem
      obtain ⟨page, at', map⟩ := (chained.laid other bound).segment.exists_page mem
      obtain ⟨-, -, -, eq⟩ := inside
      exact (shape.inChain_iff chained bound).mpr ⟨mem, (growth.number_same shape at' map).symm.trans eq⟩
    obtain ⟨pages, segment, mem, eq⟩ := inside
    by_cases same : other = sequence
    · subst same
      rw [segment.unique shape'.page?_invalid (growth.laid_same shape (chained.laid other bound)).segment] at mem
      rcases List.mem_append.mp mem with mem | mem
      · exact .inl (old mem)
      · obtain rfl := List.mem_singleton.mp mem
        exact .inr ⟨rfl, rfl, eq.symm.trans growth.number_block⟩
    · rw [segment.unique shape'.page?_invalid (growth.laid_other shape chained bound same).segment] at mem
      exact .inl (old mem)
  · rintro (inside | ⟨rfl, rfl, rfl⟩)
    · exact (growth.grows shape).inChain bound inside
    · exact ⟨_, (growth.laid_same shape (chained.laid other bound)).segment, by simp, growth.number_block⟩

end ChainGrowth

end ExtendChain

end Warehouse.RangeIndex
