import Warehouse.Proofs.RangeIndex.Coverage
import Warehouse.Proofs.RangeIndex.Walks

/-! # Lookups with caches that are out of date

What an accessor has in its cache was true once, and the range map has only grown since. So a walk from a position
that is out of date, or from the first page of a chain, comes to pages of the chain only, and ends at the page with
the wanted number if the chain has it. Nothing here needs the numbers of a chain to be without gaps. When the cache
says less than there is, the attempt to extend the range map finds that out before it adds a page. -/

namespace Warehouse.RangeIndex

/-- An accessor that knows nothing wrong is about to be used, and nobody else acts. No range map page is locked. -/
structure World.Informed (world : World) (contents : Metapage) : Prop where
  alone : world.relation.interference = .none
  unlocked : ∀ block page, world.image.page? block = some page → MapPage page → block ∉ world.held
  shape : Geometry world.image contents
  knows : Knows world.image contents world.accessor

/-- Only the accessor has changed, and it knows nothing wrong. -/
structure World.Learns (world : World) (contents : Metapage) (later : World) : Prop where
  same : later = { world with accessor := later.accessor }
  knows : Knows world.image contents later.accessor

/-- The cache of the accessor is the same, too. -/
structure World.Repositions (world : World) (contents : Metapage) (later : World) : Prop
    extends world.Learns contents later where
  cache : SameCache world.accessor later.accessor

section Walking

variable {world later last : World} {contents : Metapage} {sequence rounds : Nat} {target : UInt32}
  {block : BlockNumber} {accessor : Accessor}

namespace World.Informed

theorem undisturbed (informed : world.Informed contents) : world.Undisturbed :=
  ⟨informed.alone, informed.knows.running⟩

theorem addressing_eq (informed : world.Informed contents) : world.accessor.addressing = contents.addressing :=
  informed.knows.addressing_eq

theorem valid (informed : world.Informed contents) : world.accessor.addressing.Valid := by
  rw [informed.addressing_eq]
  exact informed.shape.valid

theorem kind_eq (informed : world.Informed contents) :
    contents.appendOnly = world.accessor.addressing.appendOnly :=
  (congrArg Addressing.appendOnly informed.addressing_eq).symm

/-- The accessor gets to know something that is true. -/
theorem learn (informed : world.Informed contents) (knows : Knows world.image contents accessor) :
    World.Informed { world with accessor } contents :=
  ⟨informed.alone, informed.unlocked, informed.shape, knows⟩

/-- What is known does not depend on the page that is kept in memory. -/
theorem unpinned (informed : world.Informed contents) :
    Knows world.image contents { world.accessor with current := none } :=
  informed.knows.moveTo ⟨rfl, rfl, rfl⟩ rfl informed.knows.position

theorem unmoved (informed : world.Informed contents) : world.Repositions contents world :=
  ⟨⟨rfl, informed.knows⟩, .refl _⟩

/-- The accessor takes up another position, which is at a page of a chain unless it is nowhere. -/
theorem moved (informed : world.Informed contents) (cache : SameCache world.accessor accessor)
    (running : accessor.cancelled = world.accessor.cancelled)
    (position : contents.appendOnly = true → ∀ sequence, accessor.position.sequence = some sequence →
      accessor.position.logical ≠ 0 → sequence < sequenceCount ∧
        InChain world.image contents sequence accessor.position.page accessor.position.logical) :
    world.Repositions contents { world with accessor } :=
  ⟨⟨rfl, informed.knows.moveTo cache running position⟩, cache⟩

end World.Informed

namespace World.Learns

theorem informed (learns : world.Learns contents later) (informed : world.Informed contents) :
    later.Informed contents := by
  rw [learns.same]
  exact informed.learn learns.knows

theorem image_eq (learns : world.Learns contents later) : later.image = world.image := by
  rw [learns.same]
  rfl

theorem held_eq (learns : world.Learns contents later) : later.held = world.held := by
  rw [learns.same]

theorem trans (learns : world.Learns contents later) (learns' : later.Learns contents last) :
    world.Learns contents last where
  same := by rw [learns'.same, learns.same]
  knows := learns.image_eq ▸ learns'.knows

end World.Learns

theorem World.Repositions.trans (turns : world.Repositions contents later) (turns' : later.Repositions contents last) :
    world.Repositions contents last :=
  ⟨turns.toLearns.trans turns'.toLearns, turns.cache.trans turns'.cache⟩

/-- Going to the first page of a chain, if the accessor knows of one. -/
theorem toStart_results (informed : world.Informed contents) (chained : contents.appendOnly = true)
    (bound : sequence < sequenceCount) :
    Results (fun _ _ => False)
      (fun _ later => world.Repositions contents later ∧ later.accessor.position.sequence = some sequence ∧
        ((world.accessor.chainOf sequence = .empty ∧ later.accessor.position.logical = 0) ∨
          (later.accessor.position.page = (contents.chain sequence).first ∧
            InChain world.image contents sequence later.accessor.position.page later.accessor.position.logical)))
      (Chains.toStart sequence) world := by
  simp only [Chains.toStart, results_accessor, Accessor.chain_eq _ bound, results_lift_value, results_remember]
  rcases informed.knows.chain chained sequence bound with empty | ⟨first_eq, first_ne, -⟩
  · rw [if_pos (by rw [empty]; rfl)]
    exact ⟨informed.moved ⟨rfl, rfl, rfl⟩ rfl fun _ _ _ ne => absurd rfl ne, rfl, .inl ⟨empty, rfl⟩⟩
  · -- the chain is not empty, so that its first page is still what the accessor knows
    obtain ⟨number, inside⟩ :
        ∃ number, InChain world.image contents sequence (contents.chain sequence).first number := by
      rcases informed.shape.chain_ends chained bound with ⟨empty, -⟩ | ⟨⟨number, inside, -⟩, -⟩
      · exact absurd (by rw [empty]; rfl) first_ne
      · exact ⟨number, inside⟩
    obtain ⟨page, at_first, map, number_eq⟩ := Geometry.inChain_page inside
    have unpinned := informed.learn (informed.unpinned)
    rw [← first_eq, if_neg first_ne, results_pin unpinned.alone at_first,
      results_view (unpinned.unlocked _ _ at_first map) at_first,
      if_pos (isMap_iff.mpr map.kind), number_eq]
    refine ⟨informed.moved ⟨rfl, rfl, rfl⟩ rfl ?_, rfl, .inr ⟨rfl, inside⟩⟩
    intro _ other eq _
    obtain rfl := Option.some.inj eq
    exact ⟨bound, inside⟩

theorem InChain.numberOf_eq {image : Image} {number : UInt32} (inside : InChain image contents sequence block number) :
    numberOf image block = number := by
  obtain ⟨-, -, -, eq⟩ := inside
  exact eq

/-- Following a chain from one of its pages comes to pages of the chain only. When it is not past the page with a
number, it ends there. -/
theorem follow_results (informed : world.Informed contents) (chained : contents.appendOnly = true)
    (bound : sequence < sequenceCount)
    (inside : InChain world.image contents sequence block (numberOf world.image block))
    (fuel : target.toNat - (numberOf world.image block).toNat < rounds) :
    Results (fun _ _ => False)
      (fun _ later => ∃ last, later = world.standing last ∧
        InChain world.image contents sequence last (numberOf world.image last) ∧
        ((∃ other, InChain world.image contents sequence other target) → numberOf world.image block ≤ target →
          numberOf world.image last = target))
      (Chains.follow target (linkOf world.image block) rounds) (world.standing block) := by
  induction rounds generalizing block with
  | zero => exact absurd fuel (Nat.not_lt_zero _)
  | succ rounds ih =>
      obtain ⟨page, at_block, -, -⟩ := Geometry.inChain_page inside
      have link := linkOf_eq at_block
      have next := informed.shape.next_inChain chained bound inside at_block
      by_cases stop : target ≤ numberOf world.image block ∨ linkOf world.image block = invalidBlock
      · refine (follow_stop stop).mpr ⟨block, rfl, inside, fun present le => ?_⟩
        rcases stop with reached | ended
        · exact UInt32.le_antisymm le reached
        · obtain ⟨other, inside'⟩ := present
          rcases next with ⟨-, most⟩ | ⟨-, -, -, valid, -⟩
          · exact UInt32.le_antisymm le (most other target inside')
          · exact absurd (link.symm.trans ended) valid
      · obtain ⟨below, valid⟩ := not_or.mp stop
        have below := UInt32.not_le.mp below
        rcases next with ⟨ended, -⟩ | ⟨number, inside', lt, -, least⟩
        · exact absurd (link.trans ended) valid
        · rw [← link] at inside'
          obtain ⟨next, at_next, map, next_eq⟩ := Geometry.inChain_page inside'
          have goes := World.goesOn_standing informed.undisturbed (informed.unlocked _ _ at_next map) below valid
          rw [goes.follow_step at_next (isMap_iff.mpr map.kind) (.inr (next_eq ▸ lt)), ← linkOf_eq at_next]
          have number_eq := inside'.numberOf_eq
          have lt' := UInt32.lt_iff_toNat_lt.mp lt
          have below' := UInt32.lt_iff_toNat_lt.mp below
          rw [← number_eq] at inside' lt'
          apply (ih inside' (by omega)).mono _ fun _ _ => id
          rintro - later ⟨last, rfl, inside'', found⟩
          refine ⟨last, rfl, inside'', fun present _ => found present ?_⟩
          obtain ⟨other, at_target⟩ := present
          rw [number_eq]
          exact least other target at_target below

/-- Walking to a number from a page of a chain. -/
theorem advance_results (informed : world.Informed contents) (chained : contents.appendOnly = true)
    (seq : world.accessor.position.sequence = some sequence) (fuel : 2 ^ 32 < rounds) :
    Results (fun _ _ => False)
      (fun found later => world.Repositions contents later ∧ later.accessor.position.sequence = some sequence ∧
        (∀ block, found = some block → InChain world.image contents sequence block target ∧
          later.accessor.position.logical = target) ∧
        (found = none → world.accessor.position.logical = 0 ∨ target < world.accessor.position.logical ∨
          ∀ block, ¬ InChain world.image contents sequence block target))
      (Chains.advance rounds target) world := by
  simp only [Chains.advance, results_accessor]
  split
  · rename_i nowhere
    exact ⟨informed.unmoved, seq, nofun, fun _ => .inl nowhere⟩
  rename_i placed
  obtain ⟨bound, inside⟩ := informed.knows.position chained sequence seq placed
  obtain ⟨page, at_page, map, -⟩ := Geometry.inChain_page inside
  have number_eq := inside.numberOf_eq
  obtain ⟨rest, rfl⟩ : ∃ rest, rounds = rest + 1 := ⟨rounds - 1, by omega⟩
  by_cases reached : target ≤ world.accessor.position.logical
  · apply Results.bind
    refine (follow_stop (.inl reached)).mpr ⟨informed.unmoved, seq, fun block eq => ?_, fun eq => ?_⟩
    · split at eq
      · rename_i same
        rw [same, Option.some.inj eq] at inside
        exact ⟨inside, same⟩
      · contradiction
    · split at eq
      · contradiction
      · rename_i other
        exact .inr (.inl (UInt32.lt_of_le_of_ne reached (Ne.symm other)))
  · have below := UInt32.not_le.mp reached
    have out : world.SetsOut target := ⟨informed.undisturbed, informed.unlocked _ _ at_page map, placed, below,
      informed.shape.inChain_ne_invalid inside, page, at_page, isMap_iff.mpr map.kind⟩
    have small := target.toNat_lt
    rw [← number_eq] at inside
    apply Results.andThen (out.follow_eq.mpr (follow_results informed chained bound inside (by omega)))
    rintro - later ⟨last, rfl, inside', found⟩
    rw [results_accessor, results_pure, World.position_standing]
    refine ⟨?_, seq, fun block eq => ?_, fun eq => .inr (.inr fun block present => ?_)⟩
    · refine informed.moved ⟨rfl, rfl, rfl⟩ rfl fun _ other eq _ => ?_
      obtain rfl := Option.some.inj (seq.symm.trans eq)
      exact ⟨bound, inside'⟩
    · split at eq
      · rename_i same
        obtain rfl := Option.some.inj eq
        exact ⟨same ▸ inside', same⟩
      · contradiction
    · rw [if_pos (found ⟨block, present⟩ (number_eq ▸ UInt32.le_of_lt below))] at eq
      contradiction

end Walking

/-! ## Finding the page of an entry -/

section Lookups

variable {world later : World} {contents : Metapage} {heapBlock block : BlockNumber} {sequence rounds limit : Nat}

/-- Walking along the chain of a table block to the page that has its entry. -/
theorem advanceTo_results (informed : world.Informed contents) (chained : contents.appendOnly = true)
    (seq : world.accessor.position.sequence = some (sequenceOf heapBlock)) (fuel : 2 ^ 32 < rounds) :
    Results (fun _ _ => False)
      (fun found later => world.Repositions contents later ∧
        (∀ block, found = some block → Covers world.image contents heapBlock block ∧
          later.accessor.Reaches heapBlock) ∧
        (found = none → world.accessor.position.logical = 0 ∨
          contents.addressing.target heapBlock < world.accessor.position.logical ∨
            ∀ block, ¬ Covers world.image contents heapBlock block))
      (Chains.advance rounds (contents.addressing.target heapBlock)) world := by
  apply (advance_results informed chained seq fuel).mono _ fun _ _ => id
  rintro found later ⟨turns, seq', present, absent⟩
  simp only [Covers, if_pos chained]
  refine ⟨turns, fun block eq => ?_, absent⟩
  obtain ⟨inside, logical⟩ := present block eq
  have addressing_eq : later.accessor.addressing = contents.addressing := turns.knows.addressing_eq
  have chained' : contents.addressing.appendOnly = true := chained
  rw [Accessor.Reaches, addressing_eq, if_pos chained']
  exact ⟨inside, seq', logical⟩

/-- An accessor that knows nothing wrong finds the page that has the entry of a table block, or finds nothing. It
finds the page if there is one, unless it is blind to it. -/
theorem lookup_results (informed : world.Informed contents) (fuel : 2 ^ 32 < rounds) :
    Results (fun _ _ => False)
      (fun found later => world.Repositions contents later ∧
        (∀ block, found = some block → Covers world.image contents heapBlock block ∧
          later.accessor.Reaches heapBlock) ∧
        (found = none → world.accessor.Blind heapBlock ∨ ∀ block, ¬ Covers world.image contents heapBlock block))
      (RangeMap.lookup rounds heapBlock) world := by
  simp only [RangeMap.lookup, results_accessor]
  have kind := informed.kind_eq
  split
  · rename_i chained
    rw [Addressing.logicalPage_eq informed.valid chained, results_lift_ok, informed.addressing_eq]
    have bound := sequenceOf_lt heapBlock
    have chained' := kind.trans chained
    split
    · rename_i away
      apply (toStart_results informed chained' bound).andThen
      rintro - later ⟨turns, seq, start⟩
      apply (advanceTo_results (turns.informed informed) chained' seq fuel).mono _ fun _ _ => id
      rintro found last ⟨turns', present, absent⟩
      rw [turns.image_eq] at present absent
      refine ⟨turns.trans turns', present, fun nothing => ?_⟩
      rw [Accessor.Blind, if_pos chained, informed.addressing_eq, if_pos away]
      rcases start with ⟨empty, -⟩ | ⟨first, inside⟩
      · exact .inl empty
      · -- the first page of a chain has the smallest number
        obtain zero | beyond | none := absent nothing
        · exact absurd zero (informed.shape.inChain_ne_zero chained' bound inside)
        · right
          intro block covered
          rw [Covers, if_pos chained'] at covered
          rcases informed.shape.chain_ends chained' bound with ⟨-, none⟩ | ⟨⟨number, inside', least⟩, -⟩
          · exact none _ _ inside
          · rw [first] at inside
            rw [inChain_number inside inside'] at beyond
            exact absurd (UInt32.lt_of_lt_of_le beyond (least block _ covered)) (UInt32.lt_irrefl _)
        · exact .inr none
    · rename_i near
      obtain ⟨seq, below⟩ := not_or.mp near
      apply (advanceTo_results informed chained' (Decidable.not_not.mp seq) fuel).mono _ fun _ _ => id
      rintro found later ⟨turns, present, absent⟩
      refine ⟨turns, present, fun nothing => ?_⟩
      rw [Accessor.Blind, if_pos chained, informed.addressing_eq, if_neg near]
      obtain zero | beyond | none := absent nothing
      · exact .inl zero
      · exact absurd beyond below
      · exact .inr none
  · rename_i plain
    have plain : world.accessor.addressing.appendOnly = false := (Bool.not_eq_true _).mp plain
    have plain' := kind.trans plain
    rw [Addressing.mapBlock_eq informed.valid plain, results_lift_ok, results_pure]
    refine ⟨informed.unmoved, fun block found => ?_, fun nothing => .inl ?_⟩
    · split at found
      · rename_i near
        obtain rfl := Option.some.inj found
        rw [Covers, Accessor.Reaches, plain, plain', ← informed.addressing_eq]
        exact ⟨⟨rfl, UInt32.le_trans near informed.knows.last_le⟩, near⟩
      · contradiction
    · split at nothing
      · contradiction
      · rename_i far
        rw [Accessor.Blind, plain]
        exact UInt32.not_le.mp far

/-- The metapage of an index. -/
theorem World.Informed.metapage (informed : world.Informed contents) :
    ∃ page, world.image.page? metaBlock = some page ∧ ∀ index, Metapage.read page index metaBlock = .ok contents := by
  obtain ⟨page, at_meta, holds⟩ := informed.shape.metapage
  exact ⟨page, at_meta, fun index => holds index metaBlock⟩

/-- An accessor that knows of fewer range map pages of a plain table than there are learns of all of them before it
adds one. -/
theorem extendPlain_outdated (informed : world.Informed contents) (free : world.held = [])
    (outdated : contents.lastMapPage ≠ world.accessor.lastMapPage) :
    Results (fun _ _ => False)
      (fun growth later => growth = .retry ∧
        later = { world with accessor := { world.accessor with lastMapPage := contents.lastMapPage } })
      (Coverage.extendPlain limit) world := by
  obtain ⟨page, at_meta, read⟩ := informed.metapage
  simp only [Coverage.extendPlain, results_accessor]
  rw [results_acquire (World.unlocked_of_free free _) at_meta, read, results_lift_value, if_pos outdated,
    results_remember, results_releaseAll, results_pure, free]
  exact ⟨rfl, rfl⟩

/-- An accessor that takes another page for the last one of a chain learns about the chain before it adds a page. -/
theorem extend_outdated {target : UInt32} (informed : world.Informed contents) (free : world.held = [])
    (bound : sequence < sequenceCount)
    (outdated : (contents.chain sequence).last ≠ (world.accessor.chainOf sequence).last) :
    Results (fun _ _ => False)
      (fun growth later => growth = .retry ∧
        later = { world with accessor := world.accessor.withChain sequence (contents.chain sequence) })
      (Chains.extend sequence target) world := by
  obtain ⟨page, at_meta, read⟩ := informed.metapage
  simp only [Chains.extend, results_accessor, Accessor.chain_eq _ bound, results_lift_value]
  rw [results_acquire (World.unlocked_of_free free _) at_meta, read, results_lift_value, ← Metapage.chain,
    if_pos outdated, results_remember, results_releaseAll, results_pure, free]
  exact ⟨rfl, rfl⟩

/-- Going to the last page of a chain that the accessor knows of. -/
theorem toEnd_results (informed : world.Informed contents) (bound : sequence < sequenceCount) :
    Results (fun _ _ => False)
      (fun _ later => world.Repositions contents later ∧ later.accessor.AtEnd sequence)
      (Chains.toEnd sequence) world := by
  simp only [Chains.toEnd, results_accessor, Accessor.chain_eq _ bound, results_lift_value, results_remember_last]
  refine ⟨informed.moved ⟨rfl, rfl, rfl⟩ rfl fun chained other eq ne => ?_, rfl⟩
  obtain rfl := Option.some.inj eq
  rcases informed.knows.chain chained sequence bound with empty | ⟨-, -, inside⟩
  · exact absurd (by rw [empty]; rfl) ne
  · exact ⟨bound, inside⟩

/-- An accessor at the end of a chain as far as it knows comes to its end when it tries to extend the chain up to a
number that the chain has reached. It adds no page. -/
theorem extendChainTo_results (informed : world.Informed contents) (free : world.held = [])
    (chained : contents.appendOnly = true) (bound : sequence < sequenceCount)
    (at_end : world.accessor.AtEnd sequence) {target : UInt32}
    (reached : target ≤ (contents.chain sequence).lastLogical) :
    Results (fun _ _ => False)
      (fun _ later => world.Learns contents later ∧ later.accessor.AtEnd sequence ∧
        target ≤ later.accessor.position.logical)
      (Coverage.extendChainTo sequence target (rounds + 2)) world := by
  simp only [Coverage.extendChainTo, results_accessor]
  split
  · rename_i far
    exact ⟨informed.unmoved.toLearns, at_end, far⟩
  rename_i near
  have outdated : (contents.chain sequence).last ≠ (world.accessor.chainOf sequence).last := by
    intro same
    rw [← informed.knows.chain_eq informed.shape chained bound same] at reached
    rw [at_end] at near
    exact near reached
  rw [results_poll informed.knows.running]
  apply (extend_outdated informed free bound outdated).andThen
  rintro - later ⟨-, rfl⟩
  have knows : Knows world.image contents (world.accessor.withChain sequence (contents.chain sequence)) :=
    informed.knows.refresh informed.shape rfl
  apply (toEnd_results (informed.learn knows) bound).andThen
  rintro - last ⟨turns, at_end'⟩
  have learns : world.Learns contents last := World.Learns.trans ⟨rfl, knows⟩ turns.toLearns
  have logical : target ≤ last.accessor.position.logical := by
    rw [at_end', turns.cache.chainOf_eq, Accessor.chainOf_withChain_same bound]
    exact reached
  rw [results_accessor, if_pos logical, results_pure]
  exact ⟨learns, at_end', logical⟩

/-- An accessor at the end of a chain finds what the chain has. -/
theorem Accessor.AtEnd.sighted {accessor : Accessor} (chained : accessor.addressing.appendOnly = true)
    (at_end : accessor.AtEnd (sequenceOf heapBlock))
    (reached : accessor.addressing.target heapBlock ≤ accessor.position.logical) : ¬ accessor.Blind heapBlock := by
  have placed : accessor.position.logical ≠ 0 := by
    intro zero
    rw [zero] at reached
    exact accessor.addressing.target_ne_zero heapBlock (UInt32.le_antisymm reached UInt32.zero_le)
  rw [Blind, if_pos chained]
  split
  · intro empty
    rw [at_end, empty] at placed
    exact placed rfl
  · exact placed

/-- Extending the range map up to a table block that it has an entry of comes to the page of the entry, however old
the cache of the accessor is. It changes nothing but the accessor. -/
theorem ensure_results (informed : world.Informed contents) (free : world.held = [])
    (covered : Covers world.image contents heapBlock block) (fuel : 2 ^ 32 < rounds) :
    Results (fun _ _ => False)
      (fun reached later => reached = block ∧ world.Learns contents later ∧ later.accessor.Reaches heapBlock)
      (Coverage.ensure rounds heapBlock) world := by
  have kind := informed.kind_eq
  obtain ⟨rest, rfl⟩ : ∃ rest, rounds = rest + 2 := ⟨rounds - 2, by omega⟩
  simp only [Coverage.ensure, results_accessor]
  split
  · rename_i chained
    have chained' := kind.trans chained
    have bound := sequenceOf_lt heapBlock
    simp only [Coverage.ensureChained]
    apply (lookup_results informed fuel).andThen
    rintro found first ⟨turns, present, -⟩
    cases found with
    | some other =>
        obtain ⟨covered', reaches⟩ := present other rfl
        exact ⟨informed.shape.covers_unique covered' covered, turns.toLearns, reaches⟩
    | none =>
        have informed' := turns.informed informed
        simp only
        rw [Addressing.logicalPage_eq informed.valid chained, results_lift_ok, informed.addressing_eq]
        apply (toEnd_results informed' bound).andThen
        rintro - second ⟨turns', at_end⟩
        have learns := turns.toLearns.trans turns'.toLearns
        have reached := informed.shape.target_le_of_covers chained' covered
        have placed := learns.informed informed
        apply (extendChainTo_results placed (learns.held_eq.trans free) chained' bound at_end reached).andThen
        rintro - third ⟨learns', at_end', far⟩
        have learns := learns.trans learns'
        have informed'' := learns.informed informed
        apply (lookup_results informed'' fuel).andThen
        rintro found last ⟨turns'', present, absent⟩
        have learns := learns.trans turns''.toLearns
        rw [learns'.image_eq, turns'.image_eq, turns.image_eq] at present absent
        cases found with
        | some other =>
            obtain ⟨covered', reaches⟩ := present other rfl
            exact ⟨informed.shape.covers_unique covered' covered, learns, reaches⟩
        | none =>
            rw [← informed''.addressing_eq] at far
            obtain blind | none := absent rfl
            · exact absurd blind (at_end'.sighted (informed''.kind_eq.symm.trans chained') far)
            · exact absurd covered (none block)
  · rename_i plain
    have plain : world.accessor.addressing.appendOnly = false := (Bool.not_eq_true _).mp plain
    rw [Covers, kind.trans plain] at covered
    obtain ⟨rfl, le⟩ := covered
    rw [Addressing.mapBlock_eq informed.valid plain, results_lift_ok, informed.addressing_eq]
    have plain' := informed.addressing_eq ▸ plain
    simp only [Coverage.ensurePlain, results_accessor]
    split
    · rename_i near
      refine ⟨rfl, informed.unmoved.toLearns, ?_⟩
      rw [Accessor.Reaches, plain, informed.addressing_eq]
      exact near
    rename_i short
    have outdated : contents.lastMapPage ≠ world.accessor.lastMapPage := by
      intro same
      rw [same] at le
      exact short le
    rw [results_poll informed.knows.running]
    apply (extendPlain_outdated informed free outdated).andThen
    rintro - later ⟨-, rfl⟩
    rw [results_accessor, if_pos le, results_pure]
    have knows := informed.knows.withLast (UInt32.le_refl _)
    refine ⟨rfl, ⟨rfl, knows⟩, ?_⟩
    rw [Accessor.Reaches, knows.addressing_eq, plain']
    exact le

end Lookups

end Warehouse.RangeIndex
