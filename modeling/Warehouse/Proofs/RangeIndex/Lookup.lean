import Warehouse.Proofs.RangeIndex.Contracts

/-! # Looking up entries

Looking up the entry of a table block changes no page. What is found is the range map page of
the block, since an accessor knows nothing that was not true once and the range map stays in
place. An operation that runs alone finds the page unless its accessor is blind to it. -/

namespace Warehouse.RangeIndex

/-- The cache of the accessor about the metapage is the same. -/
structure SameCache (accessor after : Accessor) : Prop where
  addressing_eq : after.addressing = accessor.addressing
  last_eq : after.lastMapPage = accessor.lastMapPage
  chains_eq : after.chains = accessor.chains

/-- Only pages were looked at between the moments, and the accessor has no newer cache. -/
structure Looks (mode : Mode) (moment later : Moment) : Prop where
  waits : Waits mode moment later
  steady : Steady mode later
  cache : SameCache moment.accessor later.accessor

/-- All locked pages are regular ones. -/
def Moment.HoldsRegular (moment : Moment) : Prop :=
  ∀ block ∈ moment.held, ∃ page, moment.scene.image.page? block = some page ∧ Regular page

/-- The entry of the first table block is in the same chain as that of the other one, or not behind it in
the range map of a plain table. -/
def Addressing.Before (addressing : Addressing) (heapBlock other : BlockNumber) : Prop :=
  if addressing.appendOnly then sequenceOf heapBlock = sequenceOf other
  else addressing.target heapBlock ≤ addressing.target other

/-- The position of the accessor is where the entry of a table block is. -/
def Accessor.Reaches (accessor : Accessor) (heapBlock : BlockNumber) : Prop :=
  if accessor.addressing.appendOnly then
    accessor.position.sequence = some (sequenceOf heapBlock) ∧
      accessor.position.logical = accessor.addressing.target heapBlock
  else accessor.addressing.target heapBlock ≤ accessor.lastMapPage

/-- The accessor cannot find the entry of a table block, whether there is one or not. -/
def Accessor.Blind (accessor : Accessor) (heapBlock : BlockNumber) : Prop :=
  if accessor.addressing.appendOnly then
    if accessor.position.sequence ≠ some (sequenceOf heapBlock) ∨
        accessor.addressing.target heapBlock < accessor.position.logical then
      accessor.chainOf (sequenceOf heapBlock) = .empty
    else accessor.position.logical = 0
  else accessor.lastMapPage < accessor.addressing.target heapBlock

/-- The accessor finds the entry of a table block if there is one. -/
def Accessor.Sights (accessor : Accessor) (heapBlock : BlockNumber) : Prop :=
  if accessor.addressing.appendOnly then accessor.Sees (sequenceOf heapBlock)
  else accessor.addressing.target heapBlock ≤ accessor.lastMapPage

/-- The cache of the accessor is as the metapage is. -/
structure Current (contents : Metapage) (accessor : Accessor) : Prop where
  last_eq : accessor.lastMapPage = contents.lastMapPage
  chains_eq : accessor.chains = contents.chains
  position : ∀ sequence, accessor.position.sequence = some sequence → accessor.position.logical = 0 →
    contents.chain sequence = .empty

theorem Accessor.chain_eq (accessor : Accessor) {sequence : Nat} (bound : sequence < sequenceCount) :
    accessor.chain sequence = .ok (accessor.chainOf sequence) := by
  simp only [Accessor.chain, bound, dite_true, Accessor.chainOf, Vector.getElem?_eq_getElem bound,
    Option.getD_some]

theorem SameCache.refl (accessor : Accessor) : SameCache accessor accessor := ⟨rfl, rfl, rfl⟩

theorem SameCache.trans {first second third : Accessor} (h : SameCache first second)
    (h' : SameCache second third) : SameCache first third :=
  ⟨h'.addressing_eq.trans h.addressing_eq, h'.last_eq.trans h.last_eq, h'.chains_eq.trans h.chains_eq⟩

theorem SameCache.of_eq {accessor after : Accessor} (h : after = accessor) : SameCache accessor after := by
  rw [h]
  exact .refl _

theorem SameCache.chainOf_eq {accessor after : Accessor} (h : SameCache accessor after) (sequence : Nat) :
    after.chainOf sequence = accessor.chainOf sequence := by
  rw [Accessor.chainOf, Accessor.chainOf, h.chains_eq]

/-- Moving within a chain takes nothing away, unless the accessor stops before the first page of a chain
that it sees. -/
theorem SameCache.keeps {accessor after : Accessor} (h : SameCache accessor after)
    (placed : ∀ sequence, after.position.sequence = some sequence → accessor.chainOf sequence ≠ .empty →
      after.position.logical ≠ 0)
    (anchored : accessor.Anchored → ∀ sequence, after.position.sequence = some sequence →
      after.position.logical ≠ 0 → accessor.chainOf sequence ≠ .empty) : accessor.Keeps after where
  last_le := UInt32.le_of_eq h.last_eq.symm
  sees sequence seen := ⟨h.chainOf_eq sequence ▸ seen.1, fun eq => placed sequence eq seen.1⟩
  anchored before sequence eq ne := h.chainOf_eq sequence ▸ anchored before sequence eq ne

section Sights

variable {accessor after : Accessor} {heapBlock other : BlockNumber}

theorem Accessor.Sights.not_blind (sights : accessor.Sights heapBlock) : ¬ accessor.Blind heapBlock := by
  rw [Accessor.Sights] at sights
  rw [Accessor.Blind]
  split at sights
  · rename_i chained
    rw [if_pos chained]
    split
    · exact sights.1
    · rename_i here
      exact sights.2 (not_not.mp (not_or.mp here).1)
  · rename_i plain
    rw [if_neg plain]
    exact UInt32.not_lt.mpr sights

/-- An accessor that finds the entry of one table block finds those of others as well. -/
theorem Accessor.Sights.mono (sights : accessor.Sights heapBlock)
    (within : accessor.addressing.Before other heapBlock) : accessor.Sights other := by
  rw [Accessor.Sights] at sights ⊢
  rw [Addressing.Before] at within
  split at sights
  · rename_i chained
    rw [if_pos chained] at within
    rwa [if_pos chained, within]
  · rename_i plain
    rw [if_neg plain] at within
    rw [if_neg plain]
    exact UInt32.le_trans within sights

theorem Accessor.Keeps.sights (keeps : accessor.Keeps after) (same : after.addressing = accessor.addressing)
    (sights : accessor.Sights heapBlock) : after.Sights heapBlock := by
  rw [Accessor.Sights] at sights ⊢
  rw [same]
  split at sights
  · rename_i chained
    rw [if_pos chained]
    exact keeps.sees _ sights
  · rename_i plain
    rw [if_neg plain]
    exact UInt32.le_trans sights keeps.last_le

/-- An accessor that is where the entry of a table block is finds it. -/
theorem Accessor.Reaches.sights (reaches : accessor.Reaches heapBlock) (anchored : accessor.Anchored) :
    accessor.Sights heapBlock := by
  rw [Accessor.Reaches] at reaches
  rw [Accessor.Sights]
  split at reaches
  · rename_i chained
    obtain ⟨at_sequence, logical⟩ := reaches
    have ne : accessor.position.logical ≠ 0 := logical ▸ Addressing.target_ne_zero _ _
    rw [if_pos chained]
    exact ⟨anchored _ at_sequence ne, fun _ => ne⟩
  · rename_i plain
    rwa [if_neg plain]

end Sights

namespace Looks

variable {mode : Mode} {moment later last : Moment}

theorem refl (steady : Steady mode moment) : Looks mode moment moment := ⟨.refl _ _, steady, .refl _⟩

theorem trans (h : Looks mode moment later) (h' : Looks mode later last) : Looks mode moment last :=
  ⟨h.waits.trans h'.waits, h'.steady, h.cache.trans h'.cache⟩

theorem of_waits (waits : Waits mode moment later) (steady : Steady mode later)
    (eq : later.accessor = moment.accessor) : Looks mode moment later :=
  ⟨waits, steady, .of_eq eq⟩

/-- The accessor takes up a new position. -/
theorem move (h : Looks mode moment later) {accessor : Accessor} (cache : SameCache moment.accessor accessor)
    (knows : Knows later.scene.image later.contents accessor) :
    Looks mode moment { later with accessor } :=
  ⟨h.waits.accessor_free accessor, h.steady.learn knows, cache⟩

end Looks

section Moments

variable {mode : Mode} {moment later : Moment}

theorem Steady.addressing_eq (steady : Steady mode moment) (waits : Waits mode moment later) :
    later.contents.addressing = moment.contents.addressing :=
  (steady.grows waits).addressing_eq

theorem Steady.kind_eq (steady : Steady mode moment) (waits : Waits mode moment later) :
    later.contents.appendOnly = moment.contents.appendOnly :=
  congrArg Addressing.appendOnly (steady.addressing_eq waits)

theorem Steady.inChain (steady : Steady mode moment) (waits : Waits mode moment later) {sequence : Nat}
    {block : BlockNumber} {number : UInt32} (bound : sequence < sequenceCount)
    (inside : InChain moment.scene.image moment.contents sequence block number) :
    InChain later.scene.image later.contents sequence block number :=
  (steady.grows waits).inChain bound inside

theorem Steady.covers (steady : Steady mode moment) (waits : Waits mode moment later)
    {heapBlock block : BlockNumber} (covered : Covers moment.scene.image moment.contents heapBlock block) :
    Covers later.scene.image later.contents heapBlock block :=
  (steady.grows waits).covers covered

theorem Moment.HoldsRegular.wait (held : moment.HoldsRegular) (waits : Waits mode moment later) :
    later.HoldsRegular := by
  intro block mem
  rw [waits.held_eq] at mem
  obtain ⟨page, at', regular⟩ := held block mem
  rw [(waits.locked (List.ne_nil_of_mem mem)).1]
  exact ⟨page, at', regular⟩

theorem Moment.holdsRegular_of_free (free : moment.held = []) : moment.HoldsRegular := by
  intro block mem
  rw [free] at mem
  exact absurd mem List.not_mem_nil

/-- A page of the range map exists and is not locked. -/
theorem Moment.HoldsRegular.free (held : moment.HoldsRegular) {block : BlockNumber}
    (map : ∃ page, moment.scene.image.page? block = some page ∧ MapPage page) :
    block.toNat < moment.scene.image.size ∧ block ∉ moment.held := by
  obtain ⟨page, at', map⟩ := map
  refine ⟨Image.lt_of_page? at', fun mem => ?_⟩
  obtain ⟨page', at'', regular⟩ := held block mem
  rw [at'] at at''
  obtain rfl := Option.some.inj at''
  exact regular.not_map map

/-- The position of an accessor may be moved to any page of a chain. -/
theorem Knows.moveTo {image : Image} {contents : Metapage} {accessor after : Accessor}
    (knows : Knows image contents accessor) (cache : SameCache accessor after)
    (running : after.cancelled = accessor.cancelled)
    (position : contents.appendOnly = true → ∀ sequence, after.position.sequence = some sequence →
      after.position.logical ≠ 0 → sequence < sequenceCount ∧
        InChain image contents sequence after.position.page after.position.logical) :
    Knows image contents after where
  addressing_eq := cache.addressing_eq.trans knows.addressing_eq
  last_le := by rw [cache.last_eq]; exact knows.last_le
  chain := by
    intro chained sequence bound
    rw [cache.chainOf_eq]
    exact knows.chain chained sequence bound
  position := position
  running := running.trans knows.running

end Moments

section Chains

variable {mode : Mode} {moment : Moment} {sequence rounds : Nat} {target : UInt32}

/-- Going to the first page of a chain. -/
theorem toStart_spec (steady : Steady mode moment) (held : moment.HoldsRegular)
    (chained : moment.contents.appendOnly = true) (bound : sequence < sequenceCount) :
    Ensures mode (fun _ later => Looks mode moment later ∧ later.accessor.position.sequence = some sequence ∧
      ((moment.accessor.chainOf sequence = .empty ∧ later.accessor.position.logical = 0) ∨
        ((moment.accessor.chainOf sequence).first = later.accessor.position.page ∧
          (later.contents.chain sequence).first = later.accessor.position.page ∧
          InChain later.scene.image later.contents sequence later.accessor.position.page
            later.accessor.position.logical)))
      (Chains.toStart sequence) moment := by
  rw [Chains.toStart]
  refine steady.accessor fun m1 w1 s1 a1 => ?_
  rw [Accessor.chain_eq _ bound, ensures_lift_value]
  refine s1.remember (fun _ => a1 ▸ Accessor.keeps_current _ none) fun m2 w2 s2 a2 => ?_
  have waits := w1.trans w2
  have chained2 : m2.contents.appendOnly = true := (steady.kind_eq waits).trans chained
  have knows2 : Knows m2.scene.image m2.contents moment.accessor := a1 ▸ a2 ▸ s2.knows
  have looks2 : Looks mode moment m2 := .of_waits waits s2 (a2.trans a1)
  let unpinned : Accessor := { moment.accessor with current := none }
  have looks2' : Looks mode moment { m2 with accessor := unpinned } :=
    looks2.move ⟨rfl, rfl, rfl⟩ (knows2.moveTo ⟨rfl, rfl, rfl⟩ rfl knows2.position)
  split
  · rename_i invalid
    have empty : moment.accessor.chainOf sequence = .empty := by
      rcases knows2.chain chained2 sequence bound with empty | ⟨first, ne, -⟩
      · exact empty
      · exact absurd (first.trans invalid) ne
    refine looks2'.steady.remember_last (fun _ => SameCache.keeps ⟨rfl, rfl, rfl⟩ ?_ fun _ _ _ ne => absurd rfl ne)
      fun m3 w3 s3 a3 => ?_
    · intro other eq known
      obtain rfl := Option.some.inj eq
      exact absurd empty known
    have looks3 := looks2'.trans (.of_waits w3 s3 a3)
    refine ⟨looks3.move ⟨rfl, rfl, rfl⟩ ?_, rfl, .inl ⟨empty, rfl⟩⟩
    refine s3.knows.moveTo ⟨looks3.cache.1.symm, looks3.cache.2.symm, looks3.cache.3.symm⟩
      (by rw [a3]) fun _ _ _ ne => absurd rfl ne
  · rename_i valid
    -- the chain is not empty, so that its first page is still what the accessor knows
    obtain ⟨first_eq, first_ne⟩ : (m2.contents.chain sequence).first = (moment.accessor.chainOf sequence).first ∧
        (m2.contents.chain sequence).first ≠ invalidBlock := by
      rcases knows2.chain chained2 sequence bound with empty | ⟨first, ne, -⟩
      · exact absurd (by rw [empty]; rfl) valid
      · exact ⟨first, ne⟩
    obtain ⟨number, inside⟩ : ∃ number, InChain m2.scene.image m2.contents sequence
        (moment.accessor.chainOf sequence).first number := by
      rcases s2.sound.shape.chain_ends chained2 bound with ⟨empty, -⟩ | ⟨⟨number, inside, -⟩, -⟩
      · exact absurd (by rw [empty]; rfl) first_ne
      · exact ⟨number, by rwa [first_eq] at inside⟩
    have held2 := held.wait waits
    have present : ∀ {m : Moment}, Waits mode m2 m → m.held = m2.held →
        (moment.accessor.chainOf sequence).first.toNat < m.scene.image.size ∧
          (moment.accessor.chainOf sequence).first ∉ m.held := by
      intro m w eq
      obtain ⟨page, at', map, -⟩ := Geometry.inChain_page (s2.inChain w bound inside)
      exact (held2.wait w).free ⟨page, at', map⟩
    refine looks2'.steady.pin (fun _ => (present (.refl _ _) rfl).1) fun m3 w3 s3 a3 _ => ?_
    have w3' : Waits mode m2 m3 := ⟨w3.held_eq, w3.locked, w3.free⟩
    refine s3.view (fun _ => present w3' w3'.held_eq) fun m4 page w4 s4 a4 at4 => ?_
    have w4' := w3'.trans w4
    have inside4 := s2.inChain w4' bound inside
    obtain ⟨page', at', map, number_eq⟩ := Geometry.inChain_page inside4
    rw [at4] at at'
    obtain rfl := Option.some.inj at'
    rw [if_pos (isMap_iff.mpr map.kind), number_eq]
    have known : moment.accessor.chainOf sequence ≠ .empty := fun empty => valid (congrArg Chain.first empty)
    have ne := s4.sound.shape.inChain_ne_zero ((steady.kind_eq (waits.trans w4')).trans chained) bound inside4
    have keeps4 : m4.accessor.Keeps { unpinned with
        position := ⟨some sequence, (moment.accessor.chainOf sequence).first, number⟩ } := by
      rw [show m4.accessor = unpinned from a4.trans a3]
      refine SameCache.keeps ⟨rfl, rfl, rfl⟩ (fun _ _ _ => ne) fun _ other eq _ => ?_
      obtain rfl := Option.some.inj eq
      exact known
    refine s4.remember_last (fun _ => keeps4) fun m5 w5 s5 a5 => ?_
    have inside5 := s4.inChain w5 bound inside4
    have w5' := w4'.trans w5
    have looks5 := looks2'.trans ((Looks.of_waits w3 s3 a3).trans
      ((Looks.of_waits w4 s4 a4).trans (.of_waits w5 s5 a5)))
    refine ⟨looks5.move ⟨rfl, rfl, rfl⟩ ?_, rfl, .inr ⟨rfl, ?_, inside5⟩⟩
    · refine s5.knows.moveTo ⟨looks5.cache.1.symm, looks5.cache.2.symm, looks5.cache.3.symm⟩
        (by rw [a5, a4, a3]) fun _ other eq _ => ?_
      obtain rfl := Option.some.inj eq
      exact ⟨bound, inside5⟩
    · exact ((s2.grows w5').first_eq sequence first_ne).trans first_eq

/-- Going to where the accessor knows the last page of a chain. -/
theorem toEnd_spec (steady : Steady mode moment) (chained : moment.contents.appendOnly = true)
    (bound : sequence < sequenceCount) :
    Ensures mode (fun _ later => Looks mode moment later ∧ later.accessor.position =
        ⟨some sequence, (moment.accessor.chainOf sequence).last, (moment.accessor.chainOf sequence).lastLogical⟩)
      (Chains.toEnd sequence) moment := by
  rw [Chains.toEnd]
  refine steady.accessor fun m1 w1 s1 a1 => ?_
  rw [Accessor.chain_eq _ bound, ensures_lift_value]
  have keeps1 : m1.accessor.Keeps { moment.accessor with position :=
      ⟨some sequence, (moment.accessor.chainOf sequence).last, (moment.accessor.chainOf sequence).lastLogical⟩ } := by
    rw [a1]
    refine SameCache.keeps ⟨rfl, rfl, rfl⟩ (fun other eq known => ?_) fun _ other eq ne empty => ?_
    · obtain rfl := Option.some.inj eq
      rcases steady.knows.chain chained sequence bound with empty | ⟨-, -, inside⟩
      · exact absurd empty known
      · exact steady.sound.shape.inChain_ne_zero chained bound inside
    · obtain rfl := Option.some.inj eq
      exact ne (congrArg Chain.lastLogical empty)
  refine s1.remember_last (fun _ => keeps1) fun m2 w2 s2 a2 => ?_
  have waits := w1.trans w2
  have looks : Looks mode moment m2 := .of_waits waits s2 (a2.trans a1)
  refine ⟨looks.move ⟨rfl, rfl, rfl⟩ ?_, rfl⟩
  refine s2.knows.moveTo ⟨looks.cache.1.symm, looks.cache.2.symm, looks.cache.3.symm⟩
    (by rw [a2, a1]) fun chained2 other eq ne => ?_
  obtain rfl := Option.some.inj eq
  refine ⟨bound, ?_⟩
  rcases s2.knows.chain chained2 sequence bound with empty | ⟨-, -, inside⟩
  · rw [a2, a1] at empty
    exact absurd (by simp only [empty]; rfl) ne
  · rwa [a2, a1] at inside

theorem inChain_number {image : Image} {contents : Metapage} {block : BlockNumber} {number number' : UInt32}
    (h : InChain image contents sequence block number) (h' : InChain image contents sequence block number') :
    number = number' := by
  obtain ⟨-, -, -, eq⟩ := h
  obtain ⟨-, -, -, eq'⟩ := h'
  exact eq.symm.trans eq'

theorem contents_solo {later : Moment} (waits : Waits .solo moment later) : later.contents = moment.contents := by
  rw [Moment.contents, Moment.contents, waits.scene_eq_of_solo]

/-- What an operation that runs alone has seen is what it sees later. -/
theorem inChain_solo {later : Moment} (waits : Waits .solo moment later) {block : BlockNumber} {number : UInt32}
    (h : InChain later.scene.image later.contents sequence block number) :
    InChain moment.scene.image moment.contents sequence block number := by
  rwa [Moment.contents, waits.scene_eq_of_solo] at h

/-- A walk along a chain is at a page and goes on with the next one, which is the page that it is
at, or one after it, or there is none. -/
structure Walk (image : Image) (contents : Metapage) (sequence : Nat) (page : BlockNumber) (logical : UInt32)
    (next : BlockNumber) : Prop where
  here : InChain image contents sequence page logical
  link : next = page ∨ next = invalidBlock ∨ ∃ number, InChain image contents sequence next number ∧ logical < number

/-- A walk has not gone past the page with a number, if the chain has it. -/
def Ahead (image : Image) (contents : Metapage) (sequence : Nat) (page : BlockNumber) (logical : UInt32)
    (next : BlockNumber) (target : UInt32) : Prop :=
  ∀ block, InChain image contents sequence block target → logical ≤ target ∧
    (next ≠ page → logical ≠ target → ∃ number, InChain image contents sequence next number ∧ number ≤ target)

section Walks

variable {image : Image} {contents : Metapage} {page next block : BlockNumber} {logical number : UInt32}
  {nextPage : Page}

theorem Walk.wait {later : Moment} (steady : Steady mode moment) (waits : Waits mode moment later)
    (bound : sequence < sequenceCount)
    (walk : Walk moment.scene.image moment.contents sequence page logical next) :
    Walk later.scene.image later.contents sequence page logical next :=
  ⟨steady.inChain waits bound walk.here,
    walk.link.imp_right (Or.imp_right fun ⟨number, inside, lt⟩ => ⟨number, steady.inChain waits bound inside, lt⟩)⟩

/-- The number of the next page. -/
theorem Walk.next_number (walk : Walk image contents sequence page logical next) (valid : next ≠ invalidBlock) :
    ∃ number, InChain image contents sequence next number ∧
      (next = page ∧ number = logical ∨ next ≠ page ∧ logical < number) := by
  rcases walk.link with rfl | rfl | ⟨number, inside, lt⟩
  · exact ⟨_, walk.here, .inl ⟨rfl, rfl⟩⟩
  · exact absurd rfl valid
  · refine ⟨number, inside, .inr ⟨?_, lt⟩⟩
    rintro rfl
    rw [inChain_number walk.here inside] at lt
    exact absurd lt (UInt32.lt_irrefl _)

/-- Going on to the next page. -/
theorem Walk.step (shape : Geometry image contents) (chained : contents.appendOnly = true)
    (bound : sequence < sequenceCount) (inside : InChain image contents sequence next number)
    (at_next : image.page? next = some nextPage) :
    Walk image contents sequence next number (nextMapPage nextPage) := by
  refine ⟨inside, .inr ?_⟩
  rcases shape.next_inChain chained bound inside at_next with ⟨invalid, -⟩ | ⟨number', inside', lt, -⟩
  · exact .inl invalid
  · exact .inr ⟨number', inside', lt⟩

/-- No page of a chain is its own successor. -/
theorem Geometry.next_ne (shape : Geometry image contents) (chained : contents.appendOnly = true)
    (bound : sequence < sequenceCount) (inside : InChain image contents sequence next number)
    (at_next : image.page? next = some nextPage) : nextMapPage nextPage ≠ next := by
  intro eq
  rcases shape.next_inChain chained bound inside at_next with ⟨invalid, -⟩ | ⟨number', inside', lt, -⟩
  · exact shape.inChain_ne_invalid inside (eq.symm.trans invalid)
  · rw [eq] at inside'
    rw [inChain_number inside inside'] at lt
    exact absurd lt (UInt32.lt_irrefl _)

/-- A walk that ends ends at the page with the number. -/
theorem Ahead.arrived (shape : Geometry image contents)
    (ahead : Ahead image contents sequence page logical next target)
    (here : InChain image contents sequence page logical) (stop : target ≤ logical ∨ next = invalidBlock)
    (inside : InChain image contents sequence block target) : logical = target := by
  obtain ⟨le, later⟩ := ahead block inside
  rcases stop with reached | rfl
  · exact UInt32.le_antisymm le reached
  · refine Decidable.byContradiction fun ne => ?_
    obtain ⟨number, inside', -⟩ := later (shape.inChain_ne_invalid here).symm ne
    exact shape.inChain_ne_invalid inside' rfl

/-- Going on to the next page does not go past the page with the number. -/
theorem Ahead.step (ahead : Ahead image contents sequence page logical next target)
    (shape : Geometry image contents) (chained : contents.appendOnly = true) (bound : sequence < sequenceCount)
    (lt : logical < target) (inside : InChain image contents sequence next number)
    (step : next = page ∧ number = logical ∨ next ≠ page ∧ logical < number)
    (at_next : image.page? next = some nextPage) :
    Ahead image contents sequence next number (nextMapPage nextPage) target := by
  intro block inside'
  have le : number ≤ target := by
    rcases step with ⟨-, rfl⟩ | ⟨ne, -⟩
    · exact UInt32.le_of_lt lt
    · obtain ⟨number', inside'', le⟩ :=
        (ahead block inside').2 ne (fun eq => absurd (eq ▸ lt) (UInt32.lt_irrefl _))
      rwa [inChain_number inside inside'']
  refine ⟨le, fun _ ne => ?_⟩
  rcases shape.next_inChain chained bound inside at_next with ⟨-, last⟩ | ⟨number', inside'', -, -, least⟩
  · exact absurd (UInt32.le_antisymm le (last block target inside')) ne
  · exact ⟨number', inside'', least block target inside' (UInt32.lt_of_le_of_ne le ne)⟩

end Walks

/-- Following a chain towards a number. -/
theorem follow_spec (target : UInt32) (rounds : Nat) (steady : Steady mode moment) (held : moment.HoldsRegular)
    (chained : moment.contents.appendOnly = true) (bound : sequence < sequenceCount) (next : BlockNumber)
    (seq : moment.accessor.position.sequence = some sequence)
    (walk : Walk moment.scene.image moment.contents sequence moment.accessor.position.page
      moment.accessor.position.logical next)
    (fuel : mode = .solo → target.toNat - moment.accessor.position.logical.toNat +
      (if next = moment.accessor.position.page then 2 else 1) ≤ rounds)
    (ahead : mode = .solo → Ahead moment.scene.image moment.contents sequence moment.accessor.position.page
      moment.accessor.position.logical next target) :
    Ensures mode (fun _ later => Looks mode moment later ∧
      later.accessor.position.sequence = some sequence ∧
      InChain later.scene.image later.contents sequence later.accessor.position.page
        later.accessor.position.logical ∧
      (mode = .solo → ∀ block, InChain moment.scene.image moment.contents sequence block target →
        later.accessor.position.logical = target))
      (Chains.follow target next rounds) moment := by
  induction rounds generalizing next moment with
  | zero =>
      rw [Chains.follow, ensures_fail]
      cases mode with
      | shared rights => exact ⟨Mode.shared_ne_solo rights, steady⟩
      | solo =>
          have := fuel rfl
          split at this <;> omega
  | succ rounds ih =>
      simp only [Chains.follow]
      refine steady.accessor fun m1 w1 s1 a1 => ?_
      have looks1 : Looks mode moment m1 := .of_waits w1 s1 a1
      split
      · rename_i stop
        refine ⟨looks1, by rw [a1]; exact seq, ?_, fun solo block inside => ?_⟩
        · rw [a1]
          exact steady.inChain w1 bound walk.here
        · rw [a1]
          exact (ahead solo).arrived steady.sound.shape walk.here stop inside
      · rename_i go
        rw [not_or] at go
        obtain ⟨go, valid⟩ := go
        have lt : moment.accessor.position.logical < target := UInt32.not_le.mp go
        obtain ⟨number, inside, step⟩ := walk.next_number valid
        have present : ∀ {m : Moment}, Waits mode moment m → next.toNat < m.scene.image.size ∧ next ∉ m.held := by
          intro m w
          obtain ⟨page, at', map, -⟩ := Geometry.inChain_page (steady.inChain w bound inside)
          exact (held.wait w).free ⟨page, at', map⟩
        refine s1.poll fun m2 w2 s2 a2 => ?_
        have w2' := w1.trans w2
        refine s2.pin (fun _ => (present w2').1) fun m3 w3 s3 a3 _ => ?_
        have w3' := w2'.trans w3
        refine s3.view (fun _ => present w3') fun m4 page w4 s4 a4 at4 => ?_
        have w4' := w3'.trans w4
        have inside4 := steady.inChain w4' bound inside
        obtain ⟨page', at', map, number_eq⟩ := Geometry.inChain_page inside4
        rw [at4] at at'
        obtain rfl := Option.some.inj at'
        have map_type : ¬ ((!isMap page) = true) := by simp [isMap_iff.mpr map.kind]
        have ordered : ¬ (next ≠ moment.accessor.position.page ∧
            logicalPageOf page ≤ moment.accessor.position.logical) := by
          rintro ⟨ne, le⟩
          rw [number_eq] at le
          rcases step with ⟨eq, -⟩ | ⟨-, lt⟩
          · exact ne eq
          · exact absurd (UInt32.lt_of_lt_of_le lt le) (UInt32.lt_irrefl _)
        rw [if_neg map_type, if_neg ordered, number_eq]
        have chained4 := (steady.kind_eq w4').trans chained
        have keeps4 : m4.accessor.Keeps
            { moment.accessor with position := { moment.accessor.position with page := next, logical := number } } := by
          rw [a4, a3, a2, a1]
          refine SameCache.keeps ⟨rfl, rfl, rfl⟩
            (fun _ _ _ => s4.sound.shape.inChain_ne_zero chained4 bound inside4) fun anchored other eq _ => ?_
          exact anchored other eq (steady.sound.shape.inChain_ne_zero chained bound walk.here)
        refine s4.remember (fun _ => keeps4) fun m5 w5 s5 a5 => ?_
        have w5' := w4'.trans w5
        have inside5 := steady.inChain w5' bound inside
        have looks5 : Looks mode moment m5 := .of_waits w5' s5 (a5.trans (a4.trans (a3.trans (a2.trans a1))))
        let moved : Accessor :=
          { moment.accessor with position := { moment.accessor.position with page := next, logical := number } }
        have looks6 : Looks mode moment { m5 with accessor := moved } := by
          refine looks5.move ⟨rfl, rfl, rfl⟩ (s5.knows.moveTo ⟨looks5.cache.1.symm, looks5.cache.2.symm,
            looks5.cache.3.symm⟩ (by rw [a5, a4, a3, a2, a1]) fun _ other eq _ => ?_)
          obtain rfl := Option.some.inj (seq.symm.trans eq)
          exact ⟨bound, inside5⟩
        have shape4 := s4.sound.shape
        have apart := shape4.next_ne chained4 bound inside4 at4
        have walk5 := (Walk.step shape4 chained4 bound inside4 at4).wait s4 w5 bound
        refine (ih looks6.steady (held.wait looks6.waits) ((steady.kind_eq w5').trans chained) _ seq
          walk5 (fun solo => ?_) ?_).mono ?_
        · have := fuel solo
          have lt := UInt32.lt_iff_toNat_lt.mp lt
          change target.toNat - number.toNat + (if nextMapPage page = next then 2 else 1) ≤ rounds
          rw [if_neg apart]
          rcases step with ⟨eq, rfl⟩ | ⟨ne, lt'⟩
          · rw [if_pos eq] at this
            omega
          · rw [if_neg ne] at this
            have := UInt32.lt_iff_toNat_lt.mp lt'
            omega
        · rintro rfl block inside'
          have ahead4 := (ahead rfl).step steady.sound.shape chained bound lt inside step
            (by rw [← w4'.scene_eq_of_solo]; exact at4)
          rw [← contents_solo w5', ← w5'.scene_eq_of_solo] at ahead4
          exact ahead4 block inside'
        · rintro - later ⟨looks, seq', inside', found⟩
          refine ⟨looks6.trans looks, seq', inside', fun solo block inside0 => found solo block ?_⟩
          exact steady.inChain w5' bound inside0

/-- Walking to the page with a number. -/
theorem advance_spec (steady : Steady mode moment) (held : moment.HoldsRegular)
    (chained : moment.contents.appendOnly = true) (bound : sequence < sequenceCount)
    (seq : moment.accessor.position.sequence = some sequence)
    (fuel : mode = .solo → target.toNat + 2 ≤ rounds)
    (below : mode = .solo → ∀ block, InChain moment.scene.image moment.contents sequence block target →
      moment.accessor.position.logical ≤ target) :
    Ensures mode (fun found later => Looks mode moment later ∧
      later.accessor.position.sequence = some sequence ∧
      (moment.accessor.position.logical = 0 → later.accessor.position.logical = 0) ∧
      (moment.accessor.position.logical ≠ 0 → later.accessor.position.logical ≠ 0) ∧
      (∀ block, found = some block → InChain later.scene.image later.contents sequence block target ∧
        later.accessor.position.logical = target) ∧
      (mode = .solo → found = none → moment.accessor.position.logical = 0 ∨
        ∀ block, ¬ InChain moment.scene.image moment.contents sequence block target))
      (Chains.advance rounds target) moment := by
  simp only [Chains.advance]
  refine steady.accessor fun m1 w1 s1 a1 => ?_
  have looks1 : Looks mode moment m1 := .of_waits w1 s1 a1
  split
  · rename_i zero
    exact ⟨looks1, by rw [a1]; exact seq, fun _ => by rw [a1]; exact zero, fun ne => absurd zero ne,
      fun _ absent => (by cases absent), fun _ _ => .inl zero⟩
  · rename_i nonzero
    have kind1 := (steady.kind_eq w1).trans chained
    obtain ⟨-, here⟩ := s1.knows.position kind1 sequence (by rw [a1]; exact seq) (by rw [a1]; exact nonzero)
    have followed := follow_spec target rounds s1 (held.wait w1) kind1 bound moment.accessor.position.page
      (by rw [a1]; exact seq) ⟨here, .inl (by rw [a1])⟩ (fun solo => ?_)
      (fun solo block inside => ⟨?_, fun ne => absurd (by rw [a1]) ne⟩)
    · refine followed.andThen ?_
      rintro - m2 ⟨looks2, seq2, inside2, found2⟩
      have looks2' := looks1.trans looks2
      refine looks2.steady.accessor fun m3 w3 s3 a3 => ?_
      have looks3 := looks2'.trans (.of_waits w3 s3 a3)
      have kind2 := (steady.kind_eq looks2'.waits).trans chained
      have ne := looks2.steady.sound.shape.inChain_ne_zero kind2 bound inside2
      refine ⟨looks3, by rw [a3]; exact seq2, fun zero => absurd zero nonzero, fun _ => by rw [a3]; exact ne,
        fun block eq => ?_, fun solo eq => .inr fun block inside => ?_⟩
      · split at eq
        · rename_i reached
          obtain rfl := Option.some.inj eq
          rw [reached] at inside2
          exact ⟨looks2.steady.inChain w3 bound inside2, by rw [a3]; exact reached⟩
        · cases eq
      · rw [if_pos (found2 solo block (steady.inChain w1 bound inside))] at eq
        cases eq
    · have := fuel solo
      rw [a1, if_pos rfl]
      omega
    · rw [a1]
      subst solo
      exact below rfl block (inChain_solo w1 inside)

end Chains

/-! ## Finding the page of an entry -/

section Entries

variable {mode : Mode} {moment : Moment} {heapBlock : BlockNumber} {rounds : Nat}

/-- As many rounds as any loop of an operation that runs alone may take. -/
def enoughRounds : Nat := 2 ^ 32

theorem Steady.covers_iff_inChain (chained : moment.contents.appendOnly = true) {block : BlockNumber} :
    Covers moment.scene.image moment.contents heapBlock block ↔ InChain moment.scene.image moment.contents
      (sequenceOf heapBlock) block (moment.contents.addressing.target heapBlock) := by
  rw [Covers, if_pos chained]

theorem Current.cache {contents : Metapage} {accessor after : Accessor} (current : Current contents accessor)
    (cache : SameCache accessor after) (position : ∀ sequence, after.position.sequence = some sequence →
      after.position.logical = 0 → contents.chain sequence = .empty) : Current contents after :=
  ⟨cache.last_eq.trans current.last_eq, cache.chains_eq.trans current.chains_eq, position⟩

theorem Current.chainOf_eq {contents : Metapage} {accessor : Accessor} (current : Current contents accessor)
    (sequence : Nat) : accessor.chainOf sequence = contents.chain sequence := by
  rw [Accessor.chainOf, Metapage.chain, current.chains_eq]

theorem covers_solo {later : Moment} (waits : Waits .solo moment later) {block : BlockNumber}
    (h : Covers later.scene.image later.contents heapBlock block) :
    Covers moment.scene.image moment.contents heapBlock block := by
  rwa [Moment.contents, waits.scene_eq_of_solo] at h

/-- Walking along the chain of a table block until the page that has its entry. -/
theorem advanceTo_spec {heapBlock : BlockNumber} (steady : Steady mode moment) (held : moment.HoldsRegular)
    (chained : moment.accessor.addressing.appendOnly = true)
    (seq : moment.accessor.position.sequence = some (sequenceOf heapBlock))
    (below : mode = .solo → ∀ block, Covers moment.scene.image moment.contents heapBlock block →
      moment.accessor.position.logical ≤ moment.accessor.addressing.target heapBlock)
    (fuel : mode = .solo → enoughRounds ≤ rounds) :
    Ensures mode (fun found later => Looks mode moment later ∧
      later.accessor.position.sequence = some (sequenceOf heapBlock) ∧
      (moment.accessor.position.logical ≠ 0 → later.accessor.position.logical ≠ 0) ∧
      (∀ block, found = some block → Covers later.scene.image later.contents heapBlock block ∧
        later.accessor.Reaches heapBlock) ∧
      (mode = .solo → found = none → moment.accessor.position.logical = 0 ∨
        ∀ block, ¬ Covers moment.scene.image moment.contents heapBlock block))
      (Chains.advance rounds (moment.accessor.addressing.target heapBlock)) moment := by
  have addressing := steady.knows.addressing_eq
  have kind : moment.contents.appendOnly = true := (congrArg Addressing.appendOnly addressing).symm.trans chained
  have covers_iff : ∀ {later : Moment} {block : BlockNumber}, Waits mode moment later →
      (Covers later.scene.image later.contents heapBlock block ↔ InChain later.scene.image later.contents
        (sequenceOf heapBlock) block (moment.accessor.addressing.target heapBlock)) := by
    intro later block waits
    rw [Steady.covers_iff_inChain ((steady.kind_eq waits).trans kind), addressing, steady.addressing_eq waits]
  have small := moment.accessor.addressing.target_le heapBlock
  refine (advance_spec steady held kind (sequenceOf_lt heapBlock) seq (fun solo => ?_)
    (fun solo block inside => below solo block ((covers_iff (.refl _ _)).mpr inside))).mono ?_
  · have := fuel solo
    simp only [enoughRounds] at this
    omega
  · rintro found later ⟨looks, seq', -, nonzero, present, absent⟩
    refine ⟨looks, seq', nonzero, fun block eq => ?_, fun solo eq => ?_⟩
    · obtain ⟨inside, logical⟩ := present block eq
      refine ⟨(covers_iff looks.waits).mpr inside, ?_⟩
      rw [Accessor.Reaches, looks.cache.addressing_eq, if_pos chained]
      exact ⟨seq', logical⟩
    · refine (absent solo eq).imp_right fun none block covered => ?_
      exact none block ((covers_iff (.refl _ _)).mp covered)

/-- Looking up the range map page of a block of a plain table. -/
theorem Steady.lookupPlain {heapBlock : BlockNumber} (steady : Steady mode moment)
    (plain : moment.accessor.addressing.appendOnly = false) :
    (moment.accessor.addressing.target heapBlock ≤ moment.accessor.lastMapPage →
      Covers moment.scene.image moment.contents heapBlock (moment.accessor.addressing.target heapBlock) ∧
        moment.accessor.Reaches heapBlock) ∧
      (¬ moment.accessor.addressing.target heapBlock ≤ moment.accessor.lastMapPage →
        moment.accessor.Blind heapBlock) := by
  have addressing := steady.knows.addressing_eq
  have kind : moment.contents.appendOnly = false := (congrArg Addressing.appendOnly addressing).symm.trans plain
  rw [Accessor.Blind, Accessor.Reaches, Covers, plain, kind, ← addressing]
  exact ⟨fun le => ⟨⟨rfl, UInt32.le_trans le steady.knows.last_le⟩, le⟩, fun gt => UInt32.not_le.mp gt⟩

/-- Looking up the range map page of a table block. -/
theorem lookup_spec (heapBlock : BlockNumber) (steady : Steady mode moment) (held : moment.HoldsRegular)
    (fuel : mode = .solo → enoughRounds ≤ rounds) :
    Ensures mode (fun found later => Looks mode moment later ∧
      (∀ block, found = some block → Covers later.scene.image later.contents heapBlock block ∧
        later.accessor.Reaches heapBlock) ∧
      (mode = .solo → found = none → moment.accessor.Blind heapBlock ∨
        ∀ block, ¬ Covers moment.scene.image moment.contents heapBlock block) ∧
      (mode = .solo → Current moment.contents moment.accessor → Current later.contents later.accessor))
      (RangeMap.lookup rounds heapBlock) moment := by
  simp only [RangeMap.lookup]
  refine steady.accessor fun m1 w1 s1 a1 => ?_
  have looks1 : Looks mode moment m1 := .of_waits w1 s1 a1
  have addressing := steady.knows.addressing_eq
  have valid : moment.accessor.addressing.Valid := by
    rw [addressing]
    exact steady.sound.shape.valid
  split
  · rename_i chained
    have kind : moment.contents.appendOnly = true := (congrArg Addressing.appendOnly addressing).symm.trans chained
    have bound := sequenceOf_lt heapBlock
    rw [Addressing.logicalPage_eq valid chained, ensures_lift_ok]
    split
    · rename_i away
      refine (toStart_spec s1 (held.wait w1) ((steady.kind_eq w1).trans kind) bound).andThen ?_
      rintro - m2 ⟨looks2, seq2, start⟩
      have looks2' := looks1.trans looks2
      have kind2 := (steady.kind_eq looks2'.waits).trans kind
      rw [← looks2'.cache.addressing_eq] at chained ⊢
      refine (advanceTo_spec looks2.steady (held.wait looks2'.waits) chained seq2 (fun _ block covered => ?_)
        fuel).mono ?_
      · rcases start with ⟨-, zero⟩ | ⟨-, first, inside2⟩
        · rw [zero]
          exact UInt32.zero_le
        · have inside := (Steady.covers_iff_inChain kind2).mp covered
          rw [← looks2.steady.knows.addressing_eq] at inside
          rcases looks2.steady.sound.shape.chain_ends kind2 bound with ⟨-, none⟩ | ⟨⟨number, inside', least⟩, -⟩
          · exact absurd inside (none _ _)
          · rw [first] at inside'
            rw [inChain_number inside2 inside']
            exact least _ _ inside
      · rintro found m3 ⟨looks3, seq3, ne3, found3, none3⟩
        have looks3' := looks2'.trans looks3
        refine ⟨looks3', found3, fun solo eq => ?_, fun solo current => ?_⟩
        · subst solo
          rcases none3 rfl eq with zero | absent
          · left
            rw [looks2'.cache.addressing_eq] at chained
            rw [Accessor.Blind, if_pos chained, if_pos away]
            rcases start with ⟨empty, -⟩ | ⟨-, -, inside2⟩
            · rwa [a1] at empty
            · exact absurd zero (looks2.steady.sound.shape.inChain_ne_zero kind2 bound inside2)
          · exact .inr fun block covered => absent block (steady.covers looks2'.waits covered)
        · subst solo
          rw [contents_solo looks3'.waits]
          refine current.cache looks3'.cache fun sequence eq zero => ?_
          obtain rfl := Option.some.inj (seq3.symm.trans eq)
          rcases start with ⟨empty, -⟩ | ⟨-, -, inside2⟩
          · rw [a1, current.chainOf_eq] at empty
            exact empty
          · exact absurd zero (ne3 (looks2.steady.sound.shape.inChain_ne_zero kind2 bound inside2))
    · rename_i near
      rw [not_or] at near
      obtain ⟨seq, below⟩ := near
      have seq : moment.accessor.position.sequence = some (sequenceOf heapBlock) := Decidable.not_not.mp seq
      rw [← a1] at chained below seq ⊢
      refine (advanceTo_spec s1 (held.wait w1) chained seq (fun _ _ _ => UInt32.not_lt.mp below) fuel).mono ?_
      rintro found m3 ⟨looks3, seq3, ne3, found3, none3⟩
      have looks3' := looks1.trans looks3
      refine ⟨looks3', found3, fun solo eq => ?_, fun solo current => ?_⟩
      · refine (none3 solo eq).imp (fun zero => ?_) fun absent block covered => absent block (steady.covers w1 covered)
        rw [Accessor.Blind, if_pos chained, if_neg (not_or.mpr ⟨Decidable.not_not.mpr seq, below⟩)]
        exact zero
      · subst solo
        rw [contents_solo looks3'.waits]
        refine current.cache looks3.cache fun sequence eq zero => ?_
        obtain rfl := Option.some.inj (seq3.symm.trans eq)
        exact current.position _ seq (Decidable.byContradiction fun ne => ne3 ne zero)
  · rename_i plain
    have plain : moment.accessor.addressing.appendOnly = false := (Bool.not_eq_true _).mp plain
    rw [Addressing.mapBlock_eq valid plain, ensures_lift_ok, ensures_pure]
    rw [← a1] at plain ⊢
    obtain ⟨near, far⟩ := s1.lookupPlain plain
    refine ⟨looks1, fun block eq => ?_, fun _ eq => .inl ?_, fun solo current => ?_⟩
    · split at eq
      · obtain rfl := Option.some.inj eq
        exact near ‹_›
      · cases eq
    · split at eq
      · cases eq
      · exact far ‹_›
    · subst solo
      rwa [contents_solo w1]

/-- An accessor that is where the entry is finds it. -/
theorem Steady.covers_of_reaches (steady : Steady mode moment) (reaches : moment.accessor.Reaches heapBlock) :
    ¬ moment.accessor.Blind heapBlock ∧
      ∃ block, Covers moment.scene.image moment.contents heapBlock block := by
  have addressing := steady.knows.addressing_eq
  have kind_eq : moment.accessor.addressing.appendOnly = moment.contents.appendOnly :=
    congrArg Addressing.appendOnly addressing
  cases kind : moment.accessor.addressing.appendOnly with
  | true =>
      have kind' := kind_eq.symm.trans kind
      rw [Accessor.Reaches, if_pos kind] at reaches
      have ne := moment.accessor.addressing.target_ne_zero heapBlock
      obtain ⟨bound, inside⟩ := steady.knows.position kind' _ reaches.1 (by rw [reaches.2]; exact ne)
      refine ⟨?_, moment.accessor.position.page, ?_⟩
      · rw [Accessor.Blind, if_pos kind, if_neg, reaches.2]
        · exact ne
        · rw [reaches.1, reaches.2]
          simp
      · rw [Steady.covers_iff_inChain kind', ← addressing, ← reaches.2]
        exact inside
  | false =>
      have kind' := kind_eq.symm.trans kind
      rw [Accessor.Reaches, kind] at reaches
      refine ⟨?_, moment.contents.addressing.target heapBlock, ?_⟩
      · rw [Accessor.Blind, kind]
        exact fun lt => absurd (UInt32.lt_of_lt_of_le lt reaches) (UInt32.lt_irrefl _)
      · rw [Covers, kind', ← addressing]
        exact ⟨rfl, UInt32.le_trans reaches steady.knows.last_le⟩

/-- An accessor with a current cache is blind only to what is not there. -/
theorem Steady.not_covers_of_blind (steady : Steady mode moment)
    (current : Current moment.contents moment.accessor) (blind : moment.accessor.Blind heapBlock)
    (block : BlockNumber) : ¬ Covers moment.scene.image moment.contents heapBlock block := by
  intro covered
  have addressing := steady.knows.addressing_eq
  have kind_eq : moment.accessor.addressing.appendOnly = moment.contents.appendOnly :=
    congrArg Addressing.appendOnly addressing
  cases kind : moment.accessor.addressing.appendOnly with
  | true =>
      have kind' := kind_eq.symm.trans kind
      rw [Steady.covers_iff_inChain kind'] at covered
      have empty : moment.contents.chain (sequenceOf heapBlock) = .empty := by
        rw [Accessor.Blind, if_pos kind] at blind
        split at blind
        · rwa [current.chainOf_eq] at blind
        · rename_i near
          exact current.position _ (Decidable.not_not.mp (not_or.mp near).1) blind
      exact steady.sound.shape.not_inChain_of_empty kind' (sequenceOf_lt heapBlock) empty covered
  | false =>
      have kind' := kind_eq.symm.trans kind
      rw [Accessor.Blind, kind, current.last_eq, addressing] at blind
      rw [Covers, kind'] at covered
      rw [covered.1] at covered
      exact absurd (UInt32.lt_of_lt_of_le blind covered.2) (UInt32.lt_irrefl _)

theorem Accessor.Reaches.cache {accessor after : Accessor} (reaches : accessor.Reaches heapBlock)
    (cache : SameCache accessor after) (position : after.position = accessor.position) :
    after.Reaches heapBlock := by
  rw [Accessor.Reaches, cache.addressing_eq, cache.last_eq, position]
  exact reaches

/-- Keeping a range map page in memory. -/
theorem pinCurrent_spec {block : BlockNumber} (steady : Steady mode moment)
    (present : mode = .solo → block.toNat < moment.scene.image.size) :
    Ensures mode (fun _ later => Looks mode moment later ∧ later.accessor.position = moment.accessor.position)
      (RangeMap.pinCurrent block) moment := by
  simp only [RangeMap.pinCurrent]
  refine steady.accessor fun m1 w1 s1 a1 => ?_
  have looks1 : Looks mode moment m1 := .of_waits w1 s1 a1
  split
  · refine s1.pin (fun solo => ?_) fun m2 w2 s2 a2 _ => ?_
    · subst solo
      rw [w1.scene_eq_of_solo]
      exact present rfl
    · have keeps2 : m2.accessor.Keeps { moment.accessor with current := some block } := by
        rw [a2, a1]
        exact Accessor.keeps_current _ _
      refine s2.remember_last (fun _ => keeps2) fun m3 w3 s3 a3 => ?_
      have looks3 := looks1.trans ((Looks.of_waits w2 s2 a2).trans (.of_waits w3 s3 a3))
      have knows3 : Knows m3.scene.image m3.contents moment.accessor := a1 ▸ a2 ▸ a3 ▸ s3.knows
      exact ⟨looks3.move ⟨rfl, rfl, rfl⟩ (knows3.moveTo ⟨rfl, rfl, rfl⟩ rfl knows3.position), rfl⟩
  · exact ⟨looks1, by rw [a1]⟩

/-- What has been found when a range map page is locked. -/
structure MapLocked (mode : Mode) (moment : Moment) (heapBlock block : BlockNumber) (page : Page)
    (later : Moment) : Prop where
  steady : Steady mode later
  covered : Covers later.scene.image later.contents heapBlock block
  at_block : later.scene.image.page? block = some page
  map : MapPage page
  held_eq : later.held = block :: moment.held
  not_held : block ∉ moment.held
  interferes : mode.Interferes moment.scene later.scene
  locked : moment.held ≠ [] → later.scene = moment.scene ∧ later.base = moment.base
  cache : SameCache moment.accessor later.accessor
  reaches : later.accessor.Reaches heapBlock

/-- Locking the range map page of a table block. -/
theorem lockPage_spec (heapBlock : BlockNumber) (steady : Steady mode moment) (held : moment.HoldsRegular)
    (fuel : mode = .solo → enoughRounds ≤ rounds)
    (reaches : mode = .solo → moment.accessor.Reaches heapBlock) :
    Ensures mode (fun found later => MapLocked mode moment heapBlock found.1 found.2 later)
      (RangeMap.lockPage rounds heapBlock) moment := by
  simp only [RangeMap.lockPage]
  refine (lookup_spec heapBlock steady held fuel).andThen ?_
  rintro found m1 ⟨looks1, found1, none1, -⟩
  cases found with
  | none =>
      cases mode with
      | shared rights => exact ⟨Mode.shared_ne_solo rights, looks1.steady⟩
      | solo =>
          obtain ⟨sighted, block, covered⟩ := steady.covers_of_reaches (reaches rfl)
          rcases none1 rfl rfl with blind | absent
          · exact absurd blind sighted
          · exact absurd covered (absent block)
  | some block =>
      obtain ⟨covered, reaches1⟩ := found1 block rfl
      have map1 := looks1.steady.sound.shape.covers_page covered
      have held1 := held.wait looks1.waits
      refine (pinCurrent_spec looks1.steady fun _ => (held1.free map1).1).andThen ?_
      rintro - m2 ⟨looks2, position⟩
      have covered2 := looks1.steady.covers looks2.waits covered
      have map2 := looks2.steady.sound.shape.covers_page covered2
      refine looks2.steady.acquire (fun _ => (held1.wait looks2.waits).free map2) fun m3 page w3 s3 a3 at3 free3 => ?_
      have covered3 := looks2.steady.covers w3 covered2
      obtain ⟨page', at', map⟩ := s3.sound.shape.covers_page covered3
      rw [at3] at at'
      obtain rfl := Option.some.inj at'
      rw [if_pos (isMap_iff.mpr map.kind)]
      have looks3 := looks1.trans (looks2.trans (.of_waits w3 s3 a3))
      refine ⟨s3.lock _, covered3, at3, map, ?_, ?_, looks3.waits.interferes, looks3.waits.locked, looks3.cache, ?_⟩
      · rw [← looks3.waits.held_eq]
      · rw [← looks1.waits.held_eq, ← looks2.waits.held_eq]
        exact free3
      · exact reaches1.cache (looks2.cache.trans (.of_eq a3)) ((congrArg Accessor.position a3).trans position)

/-- Reading the entry at an index of a range map page. -/
theorem readEntry_spec {block : BlockNumber} {index : Nat} (steady : Steady mode moment)
    (held : moment.HoldsRegular) (covered : Covers moment.scene.image moment.contents heapBlock block)
    (bound : index < entriesPerPage) :
    Ensures mode (fun place later => Looks mode moment later ∧
      later.accessor.position = moment.accessor.position ∧
      ∃ page, later.scene.image.page? block = some page ∧ MapPage page ∧ entryAt page index = place)
      (RangeMap.readEntry block index) moment := by
  simp only [RangeMap.readEntry]
  refine (pinCurrent_spec steady fun _ => (held.free (steady.sound.shape.covers_page covered)).1).andThen ?_
  rintro - m1 ⟨looks1, position⟩
  have covered1 := steady.covers looks1.waits covered
  have map1 := looks1.steady.sound.shape.covers_page covered1
  refine looks1.steady.view (fun _ => (held.wait looks1.waits).free map1) fun m2 page w2 s2 a2 at2 => ?_
  obtain ⟨page', at', map⟩ := s2.sound.shape.covers_page (looks1.steady.covers w2 covered1)
  rw [at2] at at'
  obtain rfl := Option.some.inj at'
  rw [if_pos (isMap_iff.mpr map.kind), entry_eq page bound]
  exact ⟨looks1.trans (.of_waits w2 s2 a2), (congrArg Accessor.position a2).trans position, page, at2, map, rfl⟩

/-- A range whose entry is not valid has no summary. -/
theorem Sound.unbound {image : Image} {contents : Metapage} {block : BlockNumber}
    (sound : Sound image contents) (covered : Covers image contents heapBlock block)
    (entry : entryIn image block (contents.addressing.slot heapBlock) = none) (payload : List UInt8) :
    ¬ Binds image contents heapBlock payload := by
  rintro ⟨block', place, bytes, covered', entry', -⟩
  obtain rfl := sound.shape.covers_unique covered covered'
  cases entry.symm.trans entry'

/-- A summary that was found is that of the range, and lies where it was found. -/
structure Located (moment : Moment) (heapBlock : BlockNumber) (found : FoundSummary) : Prop where
  heapBlock_eq : found.summary.heapBlock = heapBlock
  binds : Binds moment.scene.image moment.contents heapBlock found.summary.payload
  stored : ∃ bytes, tupleAt moment.scene.image found.place = some bytes ∧ Summary.decode bytes = some found.summary

/-- A summary that is read on a regular page is that of its range. -/
theorem Steady.located {page : Page} {place : ItemPointer} {summary : Summary} (steady : Steady mode moment)
    (at_place : moment.scene.image.page? place.block = some page) (kind : isRegular page = true)
    (read : summaryOn page place.offset = some summary) :
    Located moment summary.heapBlock ⟨place, summary⟩ := by
  obtain ⟨bytes, item, decoded⟩ := Option.bind_eq_some_iff.mp read
  have tuple : tupleAt moment.scene.image place = some bytes := by
    rw [tupleAt_of_regular at_place (steady.sound.shape.regular_of at_place kind), item]
  obtain ⟨summary', block, decoded', -, covered, entry⟩ := steady.sound.linked.owned place bytes tuple
  obtain rfl := Option.some.inj (decoded'.symm.trans decoded)
  exact ⟨rfl, ⟨block, place, bytes, covered, entry, tuple, decoded⟩, bytes, tuple, decoded⟩

/-- What finding the summary of a range comes to when nobody else acts. -/
structure Finding (moment : Moment) (heapBlock : BlockNumber) (found : Option FoundSummary) : Prop where
  present : ∀ summary, found = some summary → summary.summary.heapBlock = heapBlock ∧
    Binds moment.scene.image moment.contents heapBlock summary.summary.payload ∧
    ∃ block, Covers moment.scene.image moment.contents heapBlock block ∧
      entryIn moment.scene.image block (moment.contents.addressing.slot heapBlock) = some summary.place
  absent : found = none → ∀ payload, ¬ Binds moment.scene.image moment.contents heapBlock payload

/-- Reading the entry of a range and the summary that it points at. What is found is the summary
of the range when it is found, whatever others do before. -/
theorem findFrom_spec {block : BlockNumber} {index : Nat} {previous : Option ItemPointer}
    (steady : Steady mode moment) (free : moment.held = [])
    (start : moment.contents.addressing.IsStart heapBlock)
    (covered : Covers moment.scene.image moment.contents heapBlock block)
    (slot : index = moment.contents.addressing.slot heapBlock)
    (first : mode = .solo → previous = none ∧ 1 ≤ rounds) :
    Ensures mode (fun found later => Looks mode moment later ∧
      later.accessor.position = moment.accessor.position ∧
      (∀ summary, found = some summary → Located later heapBlock summary) ∧
      (mode = .solo → Finding moment heapBlock found))
      (RangeMap.findFrom heapBlock block index previous rounds) moment := by
  induction rounds generalizing moment previous with
  | zero =>
      cases mode with
      | shared rights => exact ⟨Mode.shared_ne_solo rights, steady⟩
      | solo => exact absurd (first rfl).2 (by decide)
  | succ rounds ih =>
      have bound : index < entriesPerPage := by
        rw [slot]
        exact Addressing.slot_lt _ _
      have held := Moment.holdsRegular_of_free free
      simp only [RangeMap.findFrom]
      refine steady.poll fun m1 w1 s1 a1 => ?_
      have looks1 : Looks mode moment m1 := .of_waits w1 s1 a1
      have covered1 := steady.covers w1 covered
      refine (readEntry_spec s1 (held.wait w1) covered1 bound).andThen ?_
      rintro place m2 ⟨looks2, position2, mapPage, at2, map, entry⟩
      have looks2' := looks1.trans looks2
      have position2' : m2.accessor.position = moment.accessor.position :=
        position2.trans (congrArg Accessor.position a1)
      have start2 : m2.contents.addressing.IsStart heapBlock := by
        rw [steady.addressing_eq looks2'.waits]
        exact start
      have slot2 : index = m2.contents.addressing.slot heapBlock := by
        rw [steady.addressing_eq looks2'.waits]
        exact slot
      have covered2 := steady.covers looks2'.waits covered
      split
      · rename_i invalid
        refine ⟨looks2', position2', fun _ found => (by cases found), fun solo =>
          ⟨fun _ found => (by cases found), fun _ payload bound2 => ?_⟩⟩
        subst solo
        have none2 : entryIn m2.scene.image block (m2.contents.addressing.slot heapBlock) = none := by
          rw [← slot2]
          exact entryIn_invalid at2 map bound (by rw [entry]; simpa using invalid)
        rw [← contents_solo looks2'.waits, ← looks2'.waits.scene_eq_of_solo] at bound2
        exact looks2'.steady.sound.unbound covered2 none2 payload bound2
      · rename_i valid
        have valid : place.isValid = true := by simpa using valid
        have entry2 : entryIn m2.scene.image block (m2.contents.addressing.slot heapBlock) = some place := by
          rw [← slot2]
          exact entryIn_valid at2 map bound entry valid
        obtain ⟨bytes, payload, tuple2, decoded, binds2⟩ :=
          looks2'.steady.sound.linked.binds_of_entry looks2'.steady.sound.shape.functional start2 covered2 entry2
        obtain ⟨page2, at_place, kind2, item2⟩ := tupleAt_eq_some tuple2
        have fresh : mode = .solo → previous ≠ some place := fun solo eq => by
          rw [(first solo).1] at eq
          cases eq
        split
        · rename_i again
          refine looks2.steady.accessor fun m3 _ s3 _ => ?_
          cases mode with
          | shared rights => exact ⟨Mode.shared_ne_solo rights, s3⟩
          | solo => exact absurd again (fresh rfl)
        · refine looks2.steady.pin (fun _ => Image.lt_of_page? at_place) fun m3 w3 s3 a3 _ => ?_
          have looks3 := looks2'.trans (.of_waits w3 s3 a3)
          refine s3.view (fun solo => ?_) fun m4 page w4 s4 a4 at4 => ?_
          · subst solo
            refine ⟨by rw [w3.scene_eq_of_solo]; exact Image.lt_of_page? at_place, ?_⟩
            rw [looks3.waits.held_eq, free]
            exact List.not_mem_nil
          · have looks4 := looks3.trans (.of_waits w4 s4 a4)
            have position4 : m4.accessor.position = moment.accessor.position := by rw [a4, a3, position2']
            cases mode with
            | shared rights gaps =>
                -- the summary may have been moved in between, so that any of the branches is possible
                have again : Ensures (.shared rights gaps) (fun found later =>
                    Looks (.shared rights gaps) moment later ∧
                    later.accessor.position = moment.accessor.position ∧
                    (∀ summary, found = some summary → Located later heapBlock summary) ∧
                    (Mode.shared rights gaps = .solo → Finding moment heapBlock found))
                    (RangeMap.findFrom heapBlock block index (some place) rounds) m4 := by
                  refine (ih s4 (looks4.waits.held_eq.trans free) ?_ (steady.covers looks4.waits covered) ?_
                    (fun solo => absurd solo (Mode.shared_ne_solo rights))).mono ?_
                  · rw [steady.addressing_eq looks4.waits]
                    exact start
                  · rw [steady.addressing_eq looks4.waits]
                    exact slot
                  · rintro found m5 ⟨looks5, position5, located, -⟩
                    exact ⟨looks4.trans looks5, position5.trans position4, located,
                      fun solo => absurd solo (Mode.shared_ne_solo rights)⟩
                split
                · rename_i kind
                  split
                  · exact ⟨looks4, position4, fun _ found => (by cases found),
                      fun solo => absurd solo (Mode.shared_ne_solo rights)⟩
                  · rw [(s4.sound.shape.regular_of at4 kind).summaryAt_eq, ensures_lift_ok]
                    split
                    · rename_i read
                      split
                      · rename_i same
                        subst same
                        refine ⟨looks4, position4, fun found eq => ?_,
                          fun solo => absurd solo (Mode.shared_ne_solo rights)⟩
                        obtain rfl := Option.some.inj eq
                        exact s4.located at4 kind read
                      · exact again
                    · exact again
                · exact again
            | solo =>
                have same : m4.scene = m2.scene := (w3.trans w4).scene_eq_of_solo
                rw [same, at_place] at at4
                obtain rfl := Option.some.inj at4
                have regular := looks2'.steady.sound.shape.regular_of at_place kind2
                have inside := regular.packed.offset_of_itemAt item2
                have found : summaryOn page2 place.offset = some ⟨heapBlock, payload⟩ := by
                  rw [summaryOn, item2]
                  exact decoded
                rw [if_pos kind2, if_neg (Nat.not_lt.mpr inside.2), regular.summaryAt_eq, ensures_lift_ok, found]
                simp only [if_true]
                refine ⟨looks4, position4, fun summary eq => ?_,
                  fun _ => ⟨fun summary eq => ?_, fun eq => (by cases eq)⟩⟩
                · obtain rfl := Option.some.inj eq
                  exact s4.located (by rw [same]; exact at_place) kind2 found
                obtain rfl := Option.some.inj eq
                rw [← contents_solo looks2'.waits, ← looks2'.waits.scene_eq_of_solo]
                exact ⟨rfl, binds2, block, covered2, entry2⟩

theorem Accessor.reaches_start {accessor : Accessor} (valid : accessor.addressing.Valid) :
    accessor.Reaches (accessor.addressing.start heapBlock) ↔ accessor.Reaches heapBlock := by
  rw [Accessor.Reaches, Accessor.Reaches, Addressing.target_start valid]
  split
  · rename_i chained
    rw [Addressing.sequenceOf_start chained]
  · rfl

theorem Accessor.blind_start {accessor : Accessor} (valid : accessor.addressing.Valid) :
    accessor.Blind (accessor.addressing.start heapBlock) ↔ accessor.Blind heapBlock := by
  rw [Accessor.Blind, Accessor.Blind, Addressing.target_start valid]
  split
  · rename_i chained
    rw [Addressing.sequenceOf_start chained]
  · rfl

/-- Finding the summary of the range of a table block. What is found is the summary of the range
when it is found, whatever others do before. -/
theorem find_spec (steady : Steady mode moment) (free : moment.held = [])
    (fuel : mode = .solo → enoughRounds ≤ rounds) :
    Ensures mode (fun found later => Looks mode moment later ∧
      (∀ summary, found = some summary →
        Located later (moment.contents.addressing.start heapBlock) summary) ∧ (mode = .solo →
      (moment.accessor.Reaches heapBlock → later.accessor.Reaches heapBlock) ∧
      (Current moment.contents moment.accessor → Current later.contents later.accessor) ∧
      (moment.accessor.Blind heapBlock ∧ found = none ∨
        Finding moment (moment.contents.addressing.start heapBlock) found)))
      (RangeMap.find rounds heapBlock) moment := by
  have addressing := steady.knows.addressing_eq
  have valid : moment.accessor.addressing.Valid := by
    rw [addressing]
    exact steady.sound.shape.valid
  simp only [RangeMap.find]
  refine steady.accessor fun m1 w1 s1 a1 => ?_
  rw [Addressing.rangeStart_eq valid, ensures_lift_ok]
  refine (lookup_spec _ s1 (Moment.holdsRegular_of_free (w1.held_eq.trans free)) fuel).andThen ?_
  rintro page m2 ⟨looks2, found2, none2, current2⟩
  have looks2' := (Looks.of_waits w1 s1 a1).trans looks2
  have current : mode = .solo → Current moment.contents moment.accessor → Current m2.contents m2.accessor := by
    rintro rfl current
    refine current2 rfl ?_
    rwa [contents_solo w1, a1]
  cases page with
  | none =>
      refine ⟨looks2', fun _ found => (by cases found), fun solo => ⟨fun reaches => ?_, current solo, ?_⟩⟩
      · subst solo
        obtain ⟨sighted, block, covered⟩ := steady.covers_of_reaches ((Accessor.reaches_start valid).mpr reaches)
        rcases none2 rfl rfl with blind | absent
        · rw [a1] at blind
          exact absurd blind sighted
        · exact absurd (steady.covers w1 covered) (absent block)
      · subst solo
        rcases none2 rfl rfl with blind | absent
        · rw [a1] at blind
          exact .inl ⟨(Accessor.blind_start valid).mp blind, rfl⟩
        · right
          refine ⟨fun _ eq => (by cases eq), fun _ payload bound => ?_⟩
          obtain ⟨block, -, -, covered, -⟩ := bound
          rw [addressing] at absent
          exact absent block (steady.covers w1 covered)
  | some block =>
      obtain ⟨covered, reaches⟩ := found2 block rfl
      simp only
      rw [Addressing.entryIndex_eq valid, ensures_lift_ok]
      have addressing2 : m2.contents.addressing = moment.accessor.addressing :=
        (steady.addressing_eq looks2'.waits).trans addressing.symm
      refine (findFrom_spec looks2.steady (looks2'.waits.held_eq.trans free) ?_ covered ?_ ?_).mono ?_
      · rw [addressing2]
        exact Addressing.isStart_start valid _
      · rw [addressing2]
      · intro solo
        have := fuel solo
        simp only [enoughRounds] at this
        exact ⟨rfl, by omega⟩
      · rintro found m3 ⟨looks3, position3, located, finding⟩
        have looks3' := looks2'.trans looks3
        rw [addressing] at located
        refine ⟨looks3', located, fun solo => ⟨fun _ => ?_, fun before => ?_, ?_⟩⟩
        · have reaches3 := reaches.cache looks3.cache position3
          have same : moment.accessor.addressing = m3.accessor.addressing := looks3'.cache.addressing_eq.symm
          rw [same] at reaches3
          exact (Accessor.reaches_start (same ▸ valid)).mp reaches3
        · subst solo
          rw [contents_solo looks3.waits]
          refine (current rfl before).cache looks3.cache ?_
          rw [position3]
          exact (current rfl before).position
        · subst solo
          right
          have finding := finding rfl
          rw [← addressing]
          have same := looks2'.waits.scene_eq_of_solo
          obtain ⟨present, absent⟩ := finding
          rw [contents_solo looks2'.waits, same] at present absent
          exact ⟨present, absent⟩

end Entries

end Warehouse.RangeIndex
