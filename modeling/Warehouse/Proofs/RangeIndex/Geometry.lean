import Warehouse.Proofs.RangeIndex.MetaContents
import Warehouse.Proofs.RangeIndex.Ranges

/-! # The shape of an index

An index is an image: a metapage followed by pages of which some store summaries and some
belong to the range map. `Geometry` says how the range map is laid out on the image: for a
plain table right behind the metapage, for an append-only one as chains that share no page
and whose numbers ascend. `Covers` is the page of the range map that has the entry of a
range. Extending the range map keeps the layout and moves no entry. -/

namespace Warehouse.RangeIndex

/-- The pages of an index. -/
abbrev Image := Array Page

namespace Image

variable (image : Image)

/-- The page of a block. -/
def page? (block : BlockNumber) : Option Page := image[block.toNat]?

/-- Replace the page of a block. -/
def put (block : BlockNumber) (page : Page) : Image := image.setIfInBounds block.toNat page

/-- Add pages of zeros. -/
def growBy (image : Image) : Nat → Image
  | 0 => image
  | count + 1 => growBy (image.push .zero) count

variable {image} {block other : BlockNumber} {page before : Page}

theorem lt_of_page? (h : image.page? block = some page) : block.toNat < image.size := by
  obtain ⟨bound, -⟩ := Array.getElem?_eq_some_iff.mp h
  exact bound

theorem page?_eq_none : image.page? block = none ↔ image.size ≤ block.toNat :=
  Array.getElem?_eq_none_iff

theorem exists_page? (h : block.toNat < image.size) : ∃ page, image.page? block = some page :=
  ⟨_, Array.getElem?_eq_getElem h⟩

@[simp]
theorem size_put (image : Image) (block : BlockNumber) (page : Page) :
    (image.put block page).size = image.size :=
  Array.size_setIfInBounds

theorem page?_put_same (page : Page) (h : image.page? block = some before) :
    (image.put block page).page? block = some page := by
  rw [page?, put, Array.getElem?_setIfInBounds_self, if_pos (lt_of_page? h)]

theorem page?_put_other (ne : other ≠ block) :
    (image.put block page).page? other = image.page? other := by
  rw [page?, put, Array.getElem?_setIfInBounds_ne, page?]
  intro eq
  exact ne (UInt32.toNat_inj.mp eq.symm)

theorem page?_push_old (h : block.toNat < image.size) :
    Image.page? (image.push page) block = image.page? block := by
  rw [page?, page?, Array.getElem?_push, if_neg (by omega)]

theorem page?_push_new (h : block.toNat = image.size) :
    Image.page? (image.push page) block = some page := by
  rw [page?, Array.getElem?_push, if_pos h]

@[simp]
theorem size_growBy (image : Image) (count : Nat) : (image.growBy count).size = image.size + count := by
  induction count generalizing image with
  | zero => rfl
  | succ count ih =>
      rw [growBy, ih, Array.size_push]
      omega

theorem growBy_succ (image : Image) (count : Nat) : image.growBy (count + 1) = (image.growBy count).push .zero := by
  induction count generalizing image with
  | zero => rfl
  | succ count ih => exact ih (image.push .zero)

theorem page?_growBy_old (count : Nat) (h : block.toNat < image.size) :
    (image.growBy count).page? block = image.page? block := by
  induction count with
  | zero => rfl
  | succ count ih => rw [growBy_succ, page?_push_old (by rw [size_growBy]; omega), ih]

theorem page?_growBy_new {count : Nat} (behind : image.size ≤ block.toNat) (h : block.toNat < image.size + count) :
    (image.growBy count).page? block = some .zero := by
  induction count with
  | zero => omega
  | succ count ih =>
      rw [growBy_succ]
      by_cases last : block.toNat = (image.growBy count).size
      · exact page?_push_new last
      · rw [size_growBy] at last
        rw [page?_push_old (by rw [size_growBy]; omega)]
        exact ih (by omega)

/-- No page has the number that stands for no block. -/
theorem page?_invalid (small : image.size < 2 ^ 32) : image.page? invalidBlock = none :=
  page?_eq_none.mpr (by simp only [invalidBlock]; exact Nat.le_of_lt_succ small)

theorem ne_invalid (small : image.size < 2 ^ 32) (h : image.page? block = some page) :
    block ≠ invalidBlock := by
  rintro rfl
  rw [page?_invalid small] at h
  cases h

end Image

/-! ## Linked pages of the range map -/

/-- Following the links from a block visits the given range map pages and then arrives at
a block. -/
inductive Segment (image : Image) : BlockNumber → List BlockNumber → BlockNumber → Prop
  | nil (block : BlockNumber) : Segment image block [] block
  | cons {block stop : BlockNumber} {pages : List BlockNumber} {page : Page} :
      image.page? block = some page → MapPage page → Segment image (nextMapPage page) pages stop →
      Segment image block (block :: pages) stop

/-- The number of a range map page within its chain. -/
def numberOf (image : Image) (block : BlockNumber) : UInt32 :=
  (image.page? block).elim 0 logicalPageOf

theorem numberOf_eq {image : Image} {block : BlockNumber} {page : Page}
    (h : image.page? block = some page) : numberOf image block = logicalPageOf page := by
  rw [numberOf, h]
  rfl

namespace Segment

variable {image after : Image} {first middle stop block : BlockNumber} {front pages : List BlockNumber}

theorem eq_of_nil (h : Segment image first [] stop) : first = stop := by
  cases h
  rfl

theorem append (h : Segment image first front middle) (h' : Segment image middle pages stop) :
    Segment image first (front ++ pages) stop := by
  induction h with
  | nil => exact h'
  | cons page map _ ih => exact .cons page map (ih h')

theorem split (h : Segment image first (front ++ pages) stop) :
    ∃ middle, Segment image first front middle ∧ Segment image middle pages stop := by
  induction front generalizing first with
  | nil => exact ⟨first, .nil first, h⟩
  | cons block front ih =>
      cases h with
      | cons page map rest =>
          obtain ⟨middle, left, right⟩ := ih rest
          exact ⟨middle, .cons page map left, right⟩

/-- A segment that goes on after a block passes through it. -/
theorem split_at (h : Segment image first (front ++ block :: pages) stop) :
    Segment image first front block ∧ Segment image block (block :: pages) stop := by
  obtain ⟨middle, left, right⟩ := h.split
  cases right with
  | cons page map rest => exact ⟨left, .cons page map rest⟩

theorem exists_page (h : Segment image first pages stop) (mem : block ∈ pages) :
    ∃ page, image.page? block = some page ∧ MapPage page := by
  induction h with
  | nil => exact absurd mem (List.not_mem_nil)
  | cons page map _ ih =>
      rcases List.mem_cons.mp mem with rfl | mem
      · exact ⟨_, page, map⟩
      · exact ih mem

/-- A segment depends on the links of its own pages only. -/
theorem congr (h : Segment image first pages stop)
    (same : ∀ block ∈ pages, ∀ page, image.page? block = some page → MapPage page →
      ∃ page', after.page? block = some page' ∧ MapPage page' ∧ nextMapPage page' = nextMapPage page) :
    Segment after first pages stop := by
  induction h with
  | nil => exact .nil _
  | cons page map _ ih =>
      obtain ⟨page', at', map', next⟩ := same _ List.mem_cons_self _ page map
      refine .cons at' map' ?_
      rw [next]
      exact ih fun block mem => same block (List.mem_cons_of_mem _ mem)

/-- What is visited up to the end of a chain is fixed by where it starts. -/
theorem unique (none : image.page? stop = none) (h : Segment image first pages stop)
    (h' : Segment image first front stop) : pages = front := by
  induction h generalizing front with
  | nil =>
      cases h' with
      | nil => rfl
      | cons page _ _ =>
          rw [none] at page
          cases page
  | cons page map _ ih =>
      cases h' with
      | nil =>
          rw [none] at page
          cases page
      | cons page' _ rest =>
          rw [page] at page'
          obtain rfl := Option.some.inj page'
          rw [ih none rest]

end Segment

/-! ## Chains -/

/-- The chain of a block sequence. -/
def Metapage.chain (contents : Metapage) (sequence : Nat) : Chain :=
  contents.chains[sequence]?.getD .empty

/-- The pages of a chain in order. -/
structure Laid (image : Image) (chain : Chain) (pages : List BlockNumber) : Prop where
  segment : Segment image chain.first pages invalidBlock
  ascending : pages.Pairwise fun block later => numberOf image block < numberOf image later
  positive : ∀ block ∈ pages, numberOf image block ≠ 0
  ends : (pages = [] ∧ chain = .empty) ∨
    ∃ front, pages = front ++ [chain.last] ∧ numberOf image chain.last = chain.lastLogical

/-- The range map of an append-only index: every range map page belongs to exactly one
chain. -/
structure Chained (image : Image) (contents : Metapage) (pages : Nat → List BlockNumber) : Prop where
  laid : ∀ sequence < sequenceCount, Laid image (contents.chain sequence) (pages sequence)
  member : ∀ block page, image.page? block = some page → MapPage page →
    ∃ sequence < sequenceCount, block ∈ pages sequence
  disjoint : ∀ block sequence other, sequence < sequenceCount → other < sequenceCount →
    block ∈ pages sequence → block ∈ pages other → sequence = other

/-- The block is the page with the given number in the chain of a block sequence. -/
def InChain (image : Image) (contents : Metapage) (sequence : Nat) (block : BlockNumber)
    (number : UInt32) : Prop :=
  ∃ pages, Segment image (contents.chain sequence).first pages invalidBlock ∧ block ∈ pages ∧
    numberOf image block = number

/-- The block is the range map page that has the entry of a table block's range. -/
def Covers (image : Image) (contents : Metapage) (heapBlock block : BlockNumber) : Prop :=
  if contents.appendOnly then
    InChain image contents (sequenceOf heapBlock) block (contents.addressing.target heapBlock)
  else block = contents.addressing.target heapBlock ∧ block ≤ contents.lastMapPage

/-- The layout of the pages of an index. -/
structure Geometry (image : Image) (contents : Metapage) : Prop where
  small : image.size < 2 ^ 32
  metapage : ∃ page, image.page? metaBlock = some page ∧ Metapage.Holds page contents
  valid : contents.addressing.Valid
  kinds : ∀ block page, block ≠ metaBlock → image.page? block = some page →
    page = .zero ∨ Regular page ∨ MapPage page
  plain : contents.appendOnly = false → ∀ block,
    (∃ page, image.page? block = some page ∧ MapPage page) ↔
      block ≠ metaBlock ∧ block ≤ contents.lastMapPage
  chained : contents.appendOnly = true → ∃ pages, Chained image contents pages

namespace Geometry

variable {image : Image} {contents : Metapage} {heapBlock other block block' : BlockNumber}
  {sequence : Nat} {number number' : UInt32} {page : Page}

theorem magic (shape : Geometry image contents) : contents.magic = metaMagic := by
  obtain ⟨page, -, holds⟩ := shape.metapage
  obtain ⟨-, magic, eq⟩ := Metapage.holds_iff.mp holds
  rw [eq]
  exact magic

theorem metaType_of (shape : Geometry image contents) (h : image.page? metaBlock = some page) :
    pageType page = metaType ∧ Metapage.Holds page contents := by
  obtain ⟨page', at', holds⟩ := shape.metapage
  rw [h] at at'
  obtain rfl := Option.some.inj at'
  exact ⟨(Metapage.holds_iff.mp holds).1, holds⟩

/-- A page is what its type says. -/
theorem regular_of (shape : Geometry image contents) (h : image.page? block = some page)
    (kind : isRegular page = true) : Regular page := by
  have kind := isRegular_iff.mp kind
  by_cases first : block = metaBlock
  · subst first
    exact absurd ((shape.metaType_of h).1.symm.trans kind) (by decide)
  · rcases shape.kinds block page first h with rfl | regular | map
    · exact absurd kind (by simp [pageType, regularType])
    · exact regular
    · exact absurd (map.kind.symm.trans kind) (by decide)

theorem map_of (shape : Geometry image contents) (h : image.page? block = some page)
    (kind : isMap page = true) : MapPage page := by
  have kind := isMap_iff.mp kind
  by_cases first : block = metaBlock
  · subst first
    exact absurd ((shape.metaType_of h).1.symm.trans kind) (by decide)
  · rcases shape.kinds block page first h with rfl | regular | map
    · exact absurd kind (by simp [pageType, mapType])
    · exact absurd (regular.kind.symm.trans kind) (by decide)
    · exact map

/-- A page that was never initialised is a page of zeros. -/
theorem zero_of (shape : Geometry image contents) (h : image.page? block = some page)
    (first : block ≠ metaBlock) (new : page.isNew = true) : page = .zero := by
  rcases shape.kinds block page first h with rfl | regular | map
  · rfl
  · rw [regular.packed.ready] at new
    cases new
  · rw [map.ready] at new
    cases new

theorem page?_invalid (shape : Geometry image contents) : image.page? invalidBlock = none :=
  Image.page?_invalid shape.small

theorem inChain_iff (shape : Geometry image contents) {pages : Nat → List BlockNumber}
    (chained : Chained image contents pages) (bound : sequence < sequenceCount) :
    InChain image contents sequence block number ↔
      block ∈ pages sequence ∧ numberOf image block = number := by
  have segment := (chained.laid sequence bound).segment
  constructor
  · rintro ⟨pages', segment', mem, eq⟩
    rw [segment'.unique shape.page?_invalid segment] at mem
    exact ⟨mem, eq⟩
  · rintro ⟨mem, eq⟩
    exact ⟨_, segment, mem, eq⟩

theorem inChain_page (h : InChain image contents sequence block number) :
    ∃ page, image.page? block = some page ∧ MapPage page ∧ logicalPageOf page = number := by
  obtain ⟨pages, segment, mem, eq⟩ := h
  obtain ⟨page, at', map⟩ := segment.exists_page mem
  exact ⟨page, at', map, by rw [← numberOf_eq at', eq]⟩

theorem inChain_ne_invalid (shape : Geometry image contents)
    (h : InChain image contents sequence block number) : block ≠ invalidBlock := by
  obtain ⟨page, at', -⟩ := inChain_page h
  exact Image.ne_invalid shape.small at'

theorem inChain_ne_zero (shape : Geometry image contents) (chained : contents.appendOnly = true)
    (bound : sequence < sequenceCount) (h : InChain image contents sequence block number) :
    number ≠ 0 := by
  obtain ⟨pages, laid⟩ := shape.chained chained
  obtain ⟨mem, rfl⟩ := (shape.inChain_iff laid bound).mp h
  exact (laid.laid sequence bound).positive block mem

/-- The number of a page of a chain is its alone. -/
theorem inChain_unique (shape : Geometry image contents) (chained : contents.appendOnly = true)
    (bound : sequence < sequenceCount) (h : InChain image contents sequence block number)
    (h' : InChain image contents sequence block' number) : block = block' := by
  obtain ⟨pages, laid⟩ := shape.chained chained
  obtain ⟨mem, eq⟩ := (shape.inChain_iff laid bound).mp h
  obtain ⟨mem', eq'⟩ := (shape.inChain_iff laid bound).mp h'
  have ascending := (laid.laid sequence bound).ascending
  have apart : ∀ {a b : BlockNumber}, numberOf image a < numberOf image b →
      numberOf image a = numberOf image b → False := fun lt eq =>
    absurd (eq ▸ lt) (UInt32.lt_irrefl _)
  obtain ⟨front, rest, split⟩ := List.append_of_mem mem
  rw [split, List.pairwise_append, List.pairwise_cons] at ascending
  rw [split, List.mem_append, List.mem_cons] at mem'
  rcases mem' with mem' | rfl | mem'
  · exact (apart (ascending.2.2 _ mem' _ List.mem_cons_self) (eq'.trans eq.symm)).elim
  · rfl
  · exact (apart (ascending.2.1.1 _ mem') (eq.trans eq'.symm)).elim

/-- What follows a page of a chain: nothing when it is the last one, and otherwise the page
with the next larger number. -/
theorem next_inChain (shape : Geometry image contents) (chained : contents.appendOnly = true)
    (bound : sequence < sequenceCount) (h : InChain image contents sequence block number)
    (page_eq : image.page? block = some page) :
    (nextMapPage page = invalidBlock ∧
      ∀ later number', InChain image contents sequence later number' → number' ≤ number) ∨
    ∃ number', InChain image contents sequence (nextMapPage page) number' ∧ number < number' ∧
      nextMapPage page ≠ invalidBlock ∧
      ∀ later number'', InChain image contents sequence later number'' → number < number'' →
        number' ≤ number'' := by
  obtain ⟨pages, laid⟩ := shape.chained chained
  obtain ⟨mem, rfl⟩ := (shape.inChain_iff laid bound).mp h
  obtain ⟨segment, ascending, -, -⟩ := laid.laid sequence bound
  obtain ⟨front, rest, eq⟩ := List.append_of_mem mem
  rw [eq] at segment ascending
  obtain ⟨-, tail⟩ := segment.split_at
  rw [List.pairwise_append] at ascending
  obtain ⟨-, right, across⟩ := ascending
  rw [List.pairwise_cons] at right
  have before : ∀ later ∈ front, numberOf image later < numberOf image block := fun later mem =>
    across later mem block List.mem_cons_self
  cases tail with
  | cons page' map tail =>
      rw [page_eq] at page'
      obtain rfl := Option.some.inj page'
      cases rest with
      | nil =>
          left
          refine ⟨tail.eq_of_nil, fun later number' inside => ?_⟩
          obtain ⟨mem', rfl⟩ := (shape.inChain_iff laid bound).mp inside
          rw [eq, List.mem_append, List.mem_singleton] at mem'
          rcases mem' with mem' | rfl
          · exact UInt32.le_of_lt (before later mem')
          · exact UInt32.le_refl _
      | cons next rest =>
          right
          cases tail with
          | cons at' map' tail =>
              have lt := right.1 _ List.mem_cons_self
              refine ⟨numberOf image (nextMapPage page), (shape.inChain_iff laid bound).mpr ⟨?_, rfl⟩, lt,
                Image.ne_invalid shape.small at', fun later number'' inside lt' => ?_⟩
              · rw [eq]
                simp
              · obtain ⟨mem', rfl⟩ := (shape.inChain_iff laid bound).mp inside
                rw [eq, List.mem_append, List.mem_cons, List.mem_cons] at mem'
                rcases mem' with mem' | rfl | rfl | mem'
                · exact absurd (UInt32.lt_trans lt' (before later mem')) (UInt32.lt_irrefl _)
                · exact absurd lt' (UInt32.lt_irrefl _)
                · exact UInt32.le_refl _
                · exact UInt32.le_of_lt ((List.pairwise_cons.mp right.2).1 later mem')

/-- A chain is empty or has a first and a last page. -/
theorem chain_ends (shape : Geometry image contents) (chained : contents.appendOnly = true)
    (bound : sequence < sequenceCount) :
    (contents.chain sequence = .empty ∧ ∀ block number, ¬ InChain image contents sequence block number) ∨
      ((∃ number, InChain image contents sequence (contents.chain sequence).first number ∧
        ∀ later number', InChain image contents sequence later number' → number ≤ number') ∧
      InChain image contents sequence (contents.chain sequence).last (contents.chain sequence).lastLogical ∧
      ∀ later number, InChain image contents sequence later number →
        number ≤ (contents.chain sequence).lastLogical) := by
  obtain ⟨pages, laid⟩ := shape.chained chained
  have inside : ∀ block number, InChain image contents sequence block number ↔
      block ∈ pages sequence ∧ numberOf image block = number := fun _ _ => shape.inChain_iff laid bound
  obtain ⟨segment, ascending, -, ends⟩ := laid.laid sequence bound
  rcases ends with ⟨empty, chain⟩ | ⟨front, eq, last⟩
  · refine .inl ⟨chain, fun block number h => ?_⟩
    rw [inside, empty] at h
    exact absurd h.1 List.not_mem_nil
  · right
    refine ⟨?_, (inside _ _).mpr ⟨by rw [eq]; simp, last⟩, fun later number h => ?_⟩
    · cases pages_eq : pages sequence with
      | nil => rw [pages_eq] at eq; simp at eq
      | cons head rest =>
          rw [pages_eq] at segment ascending
          cases segment with
          | cons at' map tail =>
              refine ⟨_, (inside _ _).mpr ⟨by rw [pages_eq]; exact List.mem_cons_self, rfl⟩, fun later number' h => ?_⟩
              obtain ⟨mem, rfl⟩ := (inside _ _).mp h
              rw [pages_eq] at mem
              rcases List.mem_cons.mp mem with rfl | mem
              · exact UInt32.le_refl _
              · exact UInt32.le_of_lt ((List.pairwise_cons.mp ascending).1 later mem)
    · obtain ⟨mem, rfl⟩ := (inside _ _).mp h
      rw [eq] at mem ascending
      rcases List.mem_append.mp mem with mem | mem
      · have := (List.pairwise_append.mp ascending).2.2 later mem _ List.mem_cons_self
        rw [last] at this
        exact UInt32.le_of_lt this
      · rw [List.mem_singleton.mp mem, last]
        exact UInt32.le_refl _

/-- An empty chain has no page. -/
theorem not_inChain_of_empty (shape : Geometry image contents) (chained : contents.appendOnly = true)
    (bound : sequence < sequenceCount) (empty : contents.chain sequence = .empty) :
    ¬ InChain image contents sequence block number := by
  intro inside
  rcases shape.chain_ends chained bound with ⟨-, none⟩ | ⟨⟨first, at_first, -⟩, -⟩
  · exact none _ _ inside
  · rw [empty] at at_first
    exact shape.inChain_ne_invalid at_first rfl

/-! ### The page that has the entry of a range -/

theorem covers_page (shape : Geometry image contents) (h : Covers image contents heapBlock block) :
    ∃ page, image.page? block = some page ∧ MapPage page := by
  cases kind : contents.appendOnly with
  | true =>
      rw [Covers, if_pos kind] at h
      obtain ⟨page, at', map, -⟩ := inChain_page h
      exact ⟨page, at', map⟩
  | false =>
      rw [Covers, kind] at h
      obtain ⟨rfl, le⟩ := h
      exact (shape.plain kind _).mpr ⟨Addressing.target_ne_zero _ _, le⟩

theorem covers_unique (shape : Geometry image contents) (h : Covers image contents heapBlock block)
    (h' : Covers image contents heapBlock block') : block = block' := by
  cases kind : contents.appendOnly with
  | true =>
      rw [Covers, if_pos kind] at h h'
      exact shape.inChain_unique kind (sequenceOf_lt _) h h'
  | false =>
      rw [Covers, kind] at h h'
      exact h.1.trans h'.1.symm

/-- The chain of an entry goes on up to the number of its page. -/
theorem target_le_of_covers (shape : Geometry image contents) (chained : contents.appendOnly = true)
    (h : Covers image contents heapBlock block) :
    contents.addressing.target heapBlock ≤ (contents.chain (sequenceOf heapBlock)).lastLogical := by
  rw [Covers, if_pos chained] at h
  rcases shape.chain_ends chained (sequenceOf_lt _) with ⟨-, none⟩ | ⟨-, -, most⟩
  · exact absurd h (none _ _)
  · exact most block _ h

/-- No two ranges have the same entry. -/
theorem covers_injective (shape : Geometry image contents)
    (h : Covers image contents heapBlock block) (h' : Covers image contents other block)
    (start : contents.addressing.IsStart heapBlock) (start' : contents.addressing.IsStart other)
    (slot : contents.addressing.slot heapBlock = contents.addressing.slot other) : heapBlock = other := by
  rw [← start, ← start']
  refine Addressing.start_eq_start (fun chained => ?_) ?_ slot
  · have kind : contents.appendOnly = true := chained
    rw [Covers, if_pos kind] at h h'
    obtain ⟨pages, laid⟩ := shape.chained kind
    obtain ⟨mem, -⟩ := (shape.inChain_iff laid (sequenceOf_lt _)).mp h
    obtain ⟨mem', -⟩ := (shape.inChain_iff laid (sequenceOf_lt _)).mp h'
    exact laid.disjoint block _ _ (sequenceOf_lt _) (sequenceOf_lt _) mem mem'
  · cases kind : contents.appendOnly with
    | true =>
        rw [Covers, if_pos kind] at h h'
        obtain ⟨-, -, -, eq⟩ := h
        obtain ⟨-, -, -, eq'⟩ := h'
        exact eq.symm.trans eq'
    | false =>
        rw [Covers, kind] at h h'
        exact h.1.symm.trans h'.1

end Geometry

end Warehouse.RangeIndex
