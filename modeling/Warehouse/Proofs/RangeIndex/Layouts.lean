import Warehouse.Proofs.RangeIndex.Traffic

/-! # The layout of the range map

Whatever traffic there is on an index, its range map keeps its layout. The chains of an append-only
table are linked lists that share no page: the numbers of their pages ascend, and the metapage knows
where each of them begins and ends. The range map of a plain table is the blocks right behind the
metapage. -/

namespace Warehouse.RangeIndex

/-! ## Chains -/

/-- Where a range map page links to. -/
def linkOf (image : Image) (block : BlockNumber) : BlockNumber :=
  (image.page? block).elim invalidBlock nextMapPage

/-- Following the links from the first page of a chain visits pages with ascending numbers and ends
at its last page. What is known of the ends of the chain is all empty or all set. -/
structure Chain.Visits (image : Image) (chain : Chain) (pages : List BlockNumber) : Prop where
  segment : Segment image chain.first pages invalidBlock
  nodup : pages.Nodup
  ascending : pages.Pairwise fun block later => numberOf image block < numberOf image later
  positive : ∀ block ∈ pages, 1 ≤ numberOf image block
  ends : ∀ block ∈ pages, linkOf image block = invalidBlock ↔ block = chain.last
  known : (pages = [] ∧ chain.first = invalidBlock ∧ chain.last = invalidBlock ∧ chain.lastLogical = 0) ∨
    (pages.getLast? = some chain.last ∧ numberOf image chain.last = chain.lastLogical ∧
      chain.first ≠ invalidBlock ∧ chain.last ≠ invalidBlock ∧ chain.lastLogical ≠ 0)

section Chains

variable {image : Image} {contents : Metapage} {chain : Chain} {first block stop : BlockNumber}
  {front pages : List BlockNumber} {sequence : Nat}

/-- A segment goes on where a page of it links to. -/
theorem Segment.link (h : Segment image first (front ++ block :: pages) stop) :
    Segment image (linkOf image block) pages stop := by
  obtain ⟨-, tail⟩ := h.split_at
  cases tail with
  | cons at_block map rest =>
      rw [linkOf, at_block]
      exact rest

/-- A segment with pages begins with a page. -/
theorem Segment.first_ne (small : image.size < 2 ^ 32) (h : Segment image first (block :: pages) stop) :
    first ≠ invalidBlock := by
  cases h with
  | cons at_block map rest => exact Image.ne_invalid small at_block

theorem Laid.nodup (laid : Laid image chain pages) : pages.Nodup := by
  apply laid.ascending.imp
  intro block later lt eq
  exact absurd (eq ▸ lt) (UInt32.lt_irrefl _)

/-- The last page of a chain is the one that links to none. -/
theorem Laid.link_iff (laid : Laid image chain pages) (small : image.size < 2 ^ 32) (mem : block ∈ pages) :
    linkOf image block = invalidBlock ↔ block = chain.last := by
  obtain ⟨before, after, split⟩ := List.append_of_mem mem
  have tail : Segment image (linkOf image block) after invalidBlock := (split ▸ laid.segment).link
  have last : pages.getLast? = some chain.last := by
    rcases laid.ends with ⟨empty, -⟩ | ⟨front, eq, -⟩
    · rw [empty] at mem
      exact absurd mem List.not_mem_nil
    · rw [eq, List.getLast?_concat]
  cases after with
  | nil =>
      rw [split, List.getLast?_concat] at last
      exact ⟨fun _ => Option.some.inj last, fun _ => tail.eq_of_nil⟩
  | cons next rest =>
      -- a page after this one is not this one
      have nodup := laid.nodup
      rw [split] at nodup last
      rw [List.getLast?_append_cons, List.getLast?_cons_cons] at last
      have later : chain.last ∈ next :: rest := List.mem_of_getLast? last
      have apart := (List.nodup_cons.mp (List.nodup_append.mp nodup).2.1).1
      constructor
      · intro ended
        exact absurd ended (tail.first_ne small)
      · intro eq
        exact absurd (eq ▸ later) apart

theorem Laid.visits (laid : Laid image chain pages) (small : image.size < 2 ^ 32) : chain.Visits image pages where
  segment := laid.segment
  nodup := laid.nodup
  ascending := laid.ascending
  positive block mem := by
    have ne := laid.positive block mem
    rw [UInt32.le_iff_toNat_le]
    exact Nat.one_le_iff_ne_zero.mpr fun zero => ne (UInt32.toNat_inj.mp zero)
  ends block mem := laid.link_iff small mem
  known := by
    rcases laid.ends with ⟨empty, none⟩ | ⟨front, eq, number⟩
    · rw [none]
      exact .inl ⟨empty, rfl, rfl, rfl⟩
    · have mem : chain.last ∈ pages := eq ▸ List.mem_append_right front (List.mem_singleton_self _)
      obtain ⟨page, at_last, -⟩ := laid.segment.exists_page mem
      have first : chain.first ≠ invalidBlock := by
        cases pages with
        | nil => exact absurd mem List.not_mem_nil
        | cons page rest => exact laid.segment.first_ne small
      have last : pages.getLast? = some chain.last := by rw [eq, List.getLast?_concat]
      exact .inr ⟨last, number, first, Image.ne_invalid small at_last, number ▸ laid.positive _ mem⟩

/-- Without gaps, the numbers of a chain are those from one on. -/
theorem Chained.numbers_eq {pages : Nat → List BlockNumber} (chained : Chained image contents pages)
    (shape : Geometry image contents) (kind : contents.appendOnly = true) (gapless : Gapless image contents)
    (bound : sequence < sequenceCount) :
    (pages sequence).map (fun block => (numberOf image block).toNat) =
      List.range' 1 (contents.chain sequence).lastLogical.toNat := by
  have laid := chained.laid sequence bound
  have inside : ∀ {block number}, InChain image contents sequence block number ↔
      block ∈ pages sequence ∧ numberOf image block = number := shape.inChain_iff chained bound
  have ascending : ((pages sequence).map fun block => (numberOf image block).toNat).Pairwise (· < ·) :=
    List.pairwise_map.mpr (laid.ascending.imp fun lt => UInt32.lt_iff_toNat_lt.mp lt)
  apply ascending.eq_of_mem_iff List.pairwise_lt_range'
  intro number
  rw [List.mem_map, List.mem_range'_1]
  constructor
  · rintro ⟨block, mem, rfl⟩
    have positive := UInt32.le_iff_toNat_le.mp ((laid.visits shape.small).positive block mem)
    rcases shape.chain_ends kind bound with ⟨-, none⟩ | ⟨-, -, most⟩
    · exact absurd (inside.mpr ⟨mem, rfl⟩) (none block _)
    · have le := UInt32.le_iff_toNat_le.mp (most block _ (inside.mpr ⟨mem, rfl⟩))
      exact ⟨positive, by omega⟩
  · rintro ⟨positive, le⟩
    have eq : (UInt32.ofNat number).toNat = number := by
      have small := (contents.chain sequence).lastLogical.toNat_lt
      apply UInt32.toNat_ofNat_of_lt'
      simp only [UInt32.size]
      omega
    have ne : UInt32.ofNat number ≠ 0 := by
      intro zero
      rw [zero] at eq
      exact absurd positive (by rw [← eq]; decide)
    have within : UInt32.ofNat number ≤ (contents.chain sequence).lastLogical := by
      rw [UInt32.le_iff_toNat_le, eq]
      omega
    obtain ⟨block, member⟩ := gapless sequence bound _ ne within
    obtain ⟨mem, same⟩ := inside.mp member
    exact ⟨block, mem, by rw [same, eq]⟩

/-- Whatever traffic there is on an append-only index, its chains are linked lists. Any accessors
insert summaries, extend the range map up to a table block, and add pages with numbers of their
choice to chains, however old what they know about the chains is, and others add pages in between.
Then the links of every chain lead from its first page through distinct pages with ascending
numbers to its last page, no page is in two chains, and every range map page is in one. Unless
somebody chooses numbers, the numbers of a chain are those from one on. -/
theorem traffic_keeps_chains_linked {log : Option Log.Writer} {file : ByteArray} {pagesPerRange : UInt32}
    (name : String) (bounds : 1 ≤ pagesPerRange.toNat ∧ pagesPerRange.toNat ≤ maxPagesPerRange)
    (at_end : ∀ writer, log = some writer → writer.AtEnd file) :
    ∃ service, Service.create (.empty name log) file pagesPerRange true = .ok service ∧
      ∀ happenings state, service.Traffic happenings state → state.size < 2 ^ 32 →
        ∃ pages : Nat → List BlockNumber,
          (∀ sequence < sequenceCount,
            (state.contents.chain sequence).Visits (pagesOf state.relation) (pages sequence)) ∧
          (∀ block sequence other, sequence < sequenceCount → other < sequenceCount →
            block ∈ pages sequence → block ∈ pages other → sequence = other) ∧
          (∀ block page, (pagesOf state.relation).page? block = some page → isMap page = true →
            ∃ sequence < sequenceCount, block ∈ pages sequence) ∧
          ((∀ happening ∈ happenings, ¬ happening.ChoosesNumber) → ∀ sequence < sequenceCount,
            (pages sequence).map (fun block => (numberOf (pagesOf state.relation) block).toNat) =
              List.range' 1 (state.contents.chain sequence).lastLogical.toNat) := by
  obtain ⟨service, created, sane⟩ := exists_created name true bounds at_end
  refine ⟨service, created, fun happenings state traffic room => ?_⟩
  obtain ⟨scene, upheld, -⟩ := (sane.upheld true).run traffic nofun room
  have image_eq : pagesOf state.relation = scene.image := upheld.shows.pages
  have kind : scene.image.contents.appendOnly = true := congrArg Addressing.appendOnly upheld.addressing_eq
  have shape := upheld.sound.shape
  obtain ⟨pages, chained⟩ := shape.chained kind
  rw [Service.contents, image_eq]
  refine ⟨pages, ?_, chained.disjoint, ?_, ?_⟩
  · intro sequence bound
    exact (chained.laid sequence bound).visits shape.small
  · intro block page at_block map
    exact chained.member block page at_block (shape.map_of at_block map)
  · -- nobody left gaps, which the weaker invariant does not say
    intro none sequence bound
    obtain ⟨scene', upheld', -⟩ := (sane.upheld false).run traffic (fun _ _ => none) room
    have same : scene'.image = scene.image := upheld'.shows.pages.symm.trans image_eq
    have gapless := upheld'.gapless rfl
    rw [same] at gapless
    exact chained.numbers_eq shape kind gapless bound

/-- Others add two pages to a new append-only index, and two users open it. The first one inserts a
summary, for which it adds a page to a chain. The second one, whose cache is out of date then, inserts a
summary that needs a second page of the same chain. At last the first one needs a page of another chain. -/
theorem traffic_keeps_chains_linked_overtaken : ∃ service state first second third, ∃ pages : Nat → List BlockNumber,
    Service.create (.empty "index" none) .empty 1 true = .ok service ∧
      service.Traffic [.grew 2, .opened, .opened,
        .worked 0 (.use (.insert 7 [1])) (.ok (.answered (.placed first))),
        .worked 1 (.use (.insert 5454 [2])) (.ok (.answered (.placed second))),
        .worked 0 (.use (.insert 33554432 [3])) (.ok (.answered (.placed third)))] state ∧ state.size < 2 ^ 32 ∧
      (∀ sequence < sequenceCount,
        (state.contents.chain sequence).Visits (pagesOf state.relation) (pages sequence)) ∧
      2 ≤ (pages 0).length ∧ 1 ≤ (pages 1).length ∧ (∀ block ∈ pages 0, block ∉ pages 1) ∧
      ∀ sequence < sequenceCount, (pages sequence).map (fun block => (numberOf (pagesOf state.relation) block).toNat) =
        List.range' 1 (pages sequence).length := by
  have bounds : 1 ≤ (1 : UInt32).toNat ∧ (1 : UInt32).toNat ≤ maxPagesPerRange := by decide
  have at_end := Log.Writer.atEnd_of_none_eq .empty
  obtain ⟨service, created, keeps⟩ := traffic_keeps_chains_linked "index" bounds at_end
  have one := size_of_create bounds at_end created
  have sane := (sane_of_create bounds at_end created).grow rfl 2 (by rw [one]; decide)
  have three : Service.size { service with relation := service.relation.growBy 2 } ≤ 3 := by
    rw [Service.size, buffers_growBy]
    exact Nat.le_of_eq (congrArg (· + 2) one)
  have grew : service.Step (.grew 2) _ := .grew 2
  have fits : ∀ byte : UInt8, [byte].length + 4 ≤ maxTupleSize := fun _ => (by decide : 1 + 4 ≤ maxTupleSize)
  generalize { service with relation := service.relation.growBy 2 } = service₀ at sane grew three
  have opened := sane.step_opened
  obtain ⟨_, sane₁, size₁⟩ := sane.perform_within .openAccessor 3 three (by decide)
  have opened' := sane₁.step_opened
  obtain ⟨_, sane₂, size₂⟩ := sane₁.perform_within .openAccessor 3 size₁ (by decide)
  obtain ⟨first, _, answered, sane₃, size₃⟩ := sane₂.insert_within (by rw [sane₂.count]; decide : 0 < _) 7 (fits 1)
    (2 ^ 20) (Nat.le_trans (Nat.add_le_add_right size₂ _) (by decide)) (by decide)
  have inserted := Service.step_use answered
  obtain ⟨second, _, answered', sane₄, size₄⟩ := sane₃.insert_within (by rw [sane₃.count]; decide : 1 < _) 5454 (fits 2)
    (2 ^ 21) (Nat.le_trans (Nat.add_le_add_right size₃ _) (by decide)) (by decide)
  have inserted' := Service.step_use answered'
  obtain ⟨third, _, answered'', sane₅, size₅⟩ := sane₄.insert_within (by rw [sane₄.count]; decide : 0 < _) 33554432
    (fits 3) (2 ^ 22) (Nat.le_trans (Nat.add_le_add_right size₄ _) (by decide)) (by decide)
  have inserted'' := Service.step_use answered''
  generalize (Service.perform _ (.use 0 (.insert 33554432 [3]))).2 = state at sane₅ size₅ inserted''
  have traffic := Service.Traffic.cons grew (.cons opened (.cons opened' (.cons inserted (.cons inserted'
    (.cons inserted'' .nil)))))
  have small := Nat.lt_of_le_of_lt size₅ (by decide : 2 ^ 22 < 2 ^ 32)
  obtain ⟨pages, visits, disjoint, -, numbers⟩ := keeps _ _ traffic small
  have numbers := numbers (by simp [Happening.ChoosesNumber, Task.ChoosesNumber])
  have length : ∀ sequence < sequenceCount,
      (pages sequence).length = (state.contents.chain sequence).lastLogical.toNat := fun sequence bound => by
    simpa only [List.length_map, List.length_range'] using congrArg List.length (numbers sequence bound)
  -- the chains of the ranges that are bound go on up to their entries
  have two : 2 ≤ (state.contents.chain 0).lastLogical := sane₅.target_le rfl 5454 rfl
  have one : 1 ≤ (state.contents.chain 1).lastLogical := sane₅.target_le rfl 33554432 rfl
  refine ⟨service, state, first, second, third, pages, created, traffic, small, visits, ?_, ?_,
    fun block mem mem' => ?_, fun sequence bound => ?_⟩
  · rw [length 0 (by decide)]
    exact UInt32.le_iff_toNat_le.mp two
  · rw [length 1 (by decide)]
    exact UInt32.le_iff_toNat_le.mp one
  · exact absurd (disjoint block 0 1 (by decide) (by decide) mem mem') (by decide)
  · rw [length sequence bound]
    exact numbers sequence bound

end Chains

/-! ## The range map of a plain table -/

section Plain

variable {image : Image} {contents : Metapage} {block : BlockNumber} {addressing : Addressing} {gaps : Bool}
  {service last : Service} {scene : Scene} {happening : Happening}

theorem Geometry.map_iff (shape : Geometry image contents) (plain : contents.appendOnly = false) :
    (∃ page, image.page? block = some page ∧ isMap page = true) ↔
      1 ≤ block.toNat ∧ block.toNat ≤ contents.lastMapPage.toNat := by
  have first : block ≠ metaBlock ↔ 1 ≤ block.toNat := by
    rw [Nat.one_le_iff_ne_zero]
    exact not_congr UInt32.toNat_inj.symm
  rw [← first, ← UInt32.le_iff_toNat_le, ← shape.plain plain block]
  apply exists_congr
  intro page
  apply and_congr_right
  intro at_block
  exact ⟨shape.map_of at_block, fun map => isMap_iff.mpr map.kind⟩

/-- In a plain table the range map page of a table block is found by counting ranges. -/
theorem Addressing.target_plain (plain : addressing.appendOnly = false) (heapBlock : BlockNumber) :
    (addressing.target heapBlock).toNat = heapBlock.toNat / addressing.pagesPerRange.toNat / 5454 + 1 := by
  have origin := addressing.origin_eq heapBlock
  rw [if_neg (by rw [plain]; decide)] at origin
  rw [target_toNat, rangeNumber, origin, Nat.sub_zero]
  rfl

namespace Upheld

/-- Adding the next page to the range map adds one page or none, as it says, unless it is told to
stop. -/
theorem extends_plain (upheld : Upheld addressing false service scene) {number : Nat} {outcome : Except Failure Report}
    (step : service.Step (.worked number .extendPlain outcome) last) (room : last.size < 2 ^ 32) :
    outcome = .error (.error .cancelled) ∨
      ∃ growth, outcome = .ok (.grown growth) ∧ growth.Extends service.contents last.contents := by
  cases step with
  | @worked _ accessor _ _ world at_number suits attempt =>
      have mem := List.mem_of_getElem? at_number
      have steady := upheld.steady_alone mem
      have knows := upheld.knows accessor mem
      have small : accessor.lastMapPage.toNat + 1 < 2 ^ 32 := by
        have plain : scene.image.contents.appendOnly = false :=
          (congrArg Addressing.appendOnly knows.addressing_eq).symm.trans suits
        have le := UInt32.le_iff_toNat_le.mp knows.last_le
        have lt := upheld.sound.shape.last_lt plain
        have := upheld.sound.shape.small
        omega
      -- the page that the accessor takes to be the next one may serve as the target
      have below : accessor.lastMapPage < accessor.lastMapPage + 1 := by
        rw [UInt32.lt_iff_toNat_lt, UInt32.toNat_add, UInt32.toNat_one, Nat.mod_eq_of_lt small]
        exact Nat.lt_succ_self _
      have growing : Moment.Growing ⟨scene.far, scene.far, accessor, []⟩ (accessor.lastMapPage + 1) :=
        fun block loose => absurd loose (Scene.not_loose_far block)
      have contract : Ensures .solo (fun report later => ∃ growth, report = .grown growth ∧
          growth.Extends scene.image.contents later.contents) Task.extendPlain.procedure
          ⟨scene.far, scene.far, accessor, []⟩ := by
        apply (extendPlain_spec steady rfl suits (fun _ => below) (fun _ => growing) fun _ => enoughRounds_le).andThen
        intro growth later extended
        obtain ⟨-, -, -, alone⟩ := extended
        obtain ⟨-, -, -, extends_by⟩ := alone rfl
        exact ⟨growth, rfl, extends_by⟩
      rcases upheld.attempt_alone contract attempt room with cancelled | ⟨report, later, rfl, pages, growth, rfl, grown⟩
      · exact .inl cancelled
      · refine .inr ⟨growth, rfl, ?_⟩
        rw [Service.contents, Service.contents, upheld.shows.pages, pages]
        exact grown

/-- Extending the range map up to a table block comes to the page with the entry of the block,
unless it is told to stop. -/
theorem ensures_plain (upheld : Upheld addressing false service scene) (plain : addressing.appendOnly = false)
    {number : Nat} {heapBlock : BlockNumber} {outcome : Except Failure Report}
    (step : service.Step (.worked number (.use (.ensure heapBlock)) outcome) last) (room : last.size < 2 ^ 32) :
    outcome = .error (.error .cancelled) ∨ ∃ block, outcome = .ok (.answered (.reached block)) ∧
      block.toNat = heapBlock.toNat / addressing.pagesPerRange.toNat / 5454 + 1 ∧
      ∃ page, (pagesOf last.relation).page? block = some page ∧ isMap page = true := by
  cases step with
  | @worked _ accessor _ _ world at_number suits attempt =>
      have mem := List.mem_of_getElem? at_number
      have steady := upheld.steady_alone mem
      have addressing_eq : accessor.addressing = addressing :=
        (upheld.knows accessor mem).addressing_eq.trans upheld.addressing_eq
      have ensured : Ensures .solo (fun reached later => reached = addressing.target heapBlock ∧
          ∃ page, later.scene.image.page? reached = some page ∧ isMap page = true)
          (Coverage.ensure Session.rounds heapBlock) ⟨scene.far, scene.far, accessor, []⟩ := by
        apply (ensure_spec steady rfl (fun _ => Scene.not_loose_far) fun _ => enoughRounds_le).mono
        rintro reached later ⟨-, steady', same, covered, -⟩
        have addressing_eq' : later.contents.addressing = addressing :=
          (steady'.knows.addressing_eq.symm.trans same).trans addressing_eq
        have plain' : later.contents.appendOnly = false := (congrArg Addressing.appendOnly addressing_eq').trans plain
        rw [Covers, if_neg (by rw [plain']; decide), addressing_eq'] at covered
        obtain ⟨rfl, le⟩ := covered
        refine ⟨rfl, (steady'.sound.shape.map_iff plain').mpr ⟨?_, UInt32.le_iff_toNat_le.mp le⟩⟩
        rw [Addressing.target_toNat]
        exact Nat.le_add_left _ _
      have contract : Ensures .solo (fun report later => ∃ block, report = .answered (.reached block) ∧
          block = addressing.target heapBlock ∧ ∃ page, later.scene.image.page? block = some page ∧ isMap page = true)
          (Task.use (.ensure heapBlock)).procedure ⟨scene.far, scene.far, accessor, []⟩ := by
        apply Ensures.bind
        apply ensured.andThen
        intro block later reached
        exact ⟨block, rfl, reached⟩
      rcases upheld.attempt_alone contract attempt room with
        cancelled | ⟨report, later, rfl, pages, block, rfl, reached, map⟩
      · exact .inl cancelled
      · refine .inr ⟨block, rfl, ?_, pages ▸ map⟩
        rw [reached, Addressing.target_plain plain]

end Upheld

/-- Whatever traffic there is on a plain index, its range map is the blocks behind the metapage, up
to the one that the metapage calls the last. Any accessors insert and remove summaries and extend
the range map, however old what they know about it is, and others may have added pages to the
relation whenever one of them adds a page. No accessor is ahead of the metapage. What happens next
does not take pages from the range map, an attempt to extend it adds one page or none, as it says,
and extending it up to a table block comes to the page with the entry of the block. -/
theorem traffic_keeps_range_map_contiguous {log : Option Log.Writer} {file : ByteArray} {pagesPerRange : UInt32}
    (name : String) (bounds : 1 ≤ pagesPerRange.toNat ∧ pagesPerRange.toNat ≤ maxPagesPerRange)
    (at_end : ∀ writer, log = some writer → writer.AtEnd file) :
    ∃ service, Service.create (.empty name log) file pagesPerRange false = .ok service ∧
      ∀ happenings state, service.Traffic happenings state → state.size < 2 ^ 32 →
        (∀ block, (∃ page, (pagesOf state.relation).page? block = some page ∧ isMap page = true) ↔
          1 ≤ block.toNat ∧ block.toNat ≤ state.contents.lastMapPage.toNat) ∧
        (∀ accessor ∈ state.accessors, accessor.lastMapPage ≤ state.contents.lastMapPage) ∧
        ∀ happening next, state.Step happening next → next.size < 2 ^ 32 →
          state.contents.lastMapPage ≤ next.contents.lastMapPage ∧
          (∀ number outcome, happening = .worked number .extendPlain outcome →
            outcome = .error (.error .cancelled) ∨
              ∃ growth, outcome = .ok (.grown growth) ∧ growth.Extends state.contents next.contents) ∧
          ∀ number heapBlock outcome, happening = .worked number (.use (.ensure heapBlock)) outcome →
            outcome = .error (.error .cancelled) ∨ ∃ block, outcome = .ok (.answered (.reached block)) ∧
              block.toNat = heapBlock.toNat / pagesPerRange.toNat / 5454 + 1 ∧
              ∃ page, (pagesOf next.relation).page? block = some page ∧ isMap page = true := by
  obtain ⟨service, created, sane⟩ := exists_created name false bounds at_end
  refine ⟨service, created, fun happenings state traffic room => ?_⟩
  obtain ⟨scene, upheld, -⟩ := (sane.upheld false).run traffic (fun _ chained => nomatch chained) room
  have contents_eq : state.contents = scene.image.contents := congrArg Image.contents upheld.shows.pages
  have plain : scene.image.contents.appendOnly = false := congrArg Addressing.appendOnly upheld.addressing_eq
  rw [contents_eq]
  refine ⟨fun block => ?_, fun accessor mem => (upheld.knows accessor mem).last_le,
    fun happening next step room' => ⟨?_, ?_, ?_⟩⟩
  · rw [upheld.shows.pages]
    exact upheld.sound.shape.map_iff plain
  · obtain ⟨after, upheld', evolves⟩ := upheld.step step (fun _ chained => nomatch chained) room'
    obtain ⟨contents, sound, grows⟩ := Evolves.sound evolves upheld.sound
    rw [Service.contents, upheld'.shows.pages, Image.contents_eq sound.holds]
    exact grows.last_le
  · rintro number outcome rfl
    rw [← contents_eq]
    exact upheld.extends_plain step room'
  · rintro number heapBlock outcome rfl
    exact upheld.ensures_plain rfl step room'

/-- An accessor that is up to date adds the next page to the range map if it is there and blank. -/
theorem Sane.extend_plain {ledger : Ledger} {accessor : Accessor} (sane : Sane service scene addressing ledger)
    (plain : addressing.appendOnly = false) {number : Nat} (at_number : service.accessors[number]? = some accessor)
    (current : accessor.lastMapPage = service.contents.lastMapPage)
    (next : (pagesOf service.relation).page? (service.contents.lastMapPage + 1) = some .zero)
    (room : service.size + roundDemand < 2 ^ 32) :
    ∃ last accessor' scene', service.Step (.worked number .extendPlain (.ok (.grown (.extended
        (service.contents.lastMapPage + 1))))) last ∧
      last.accessors = service.accessors.set number accessor' ∧ Sane last scene' addressing ledger.outdated ∧
      last.size ≤ service.size + roundDemand := by
  have steady := sane.steady (List.mem_of_getElem? at_number)
  have kind : scene.image.contents.appendOnly = false :=
    (congrArg Addressing.appendOnly sane.addressing_eq).trans plain
  have suits : accessor.addressing.appendOnly = false :=
    (congrArg Addressing.appendOnly steady.knows.addressing_eq).trans kind
  have contents : service.contents = scene.image.contents := congrArg Image.contents sane.shows.pages
  rw [contents] at current next ⊢
  rw [sane.shows.pages] at next
  have target_eq : (scene.image.contents.lastMapPage + 1).toNat = scene.image.contents.lastMapPage.toNat + 1 :=
    sane.sound.shape.toNat_next kind
  generalize scene.image.contents.lastMapPage + 1 = target at next target_eq
  have below : accessor.lastMapPage < target := by
    rw [current, UInt32.lt_iff_toNat_lt, target_eq]
    exact Nat.lt_succ_self _
  have contract : Ensures .solo _ (Coverage.extendPlain Session.rounds) ⟨scene, scene, accessor, []⟩ :=
    extendPlain_spec steady rfl suits (fun _ => below) (fun _ block loose => absurd loose (sane.clean block))
      fun _ => enoughRounds_le
  have grows := takes_extendPlain Session.rounds (service.world accessor) sane.shows.alone
  have small := Nat.lt_of_le_of_lt grows.size_le room
  obtain ⟨growth, later, ok, -, -, -, -, alone⟩ := contract.run (sane.models accessor) small
  obtain ⟨-, -, costs, extended⟩ := alone rfl
  -- with a page in place, an attempt that comes to nothing would be one too many
  have ready : Moment.Costs ⟨scene, scene, accessor, []⟩ target 2 := by
    refine ⟨0, 0, fun ne => absurd current ne, fun unready => ?_, ?_⟩
    · exact absurd unready (Image.not_unready next target_eq fun regular => absurd regular isRegular_zero)
    · change 2 * (target.toNat - scene.image.contents.lastMapPage.toNat) + 0 + 0 ≤ 2
      omega
  obtain ⟨stale, unready, -, -, enough⟩ := costs 1 ready
  obtain rfl : growth = .extended target := by
    cases growth with
    | retry =>
        have same : later.contents.lastMapPage = scene.image.contents.lastMapPage := extended
        rw [same] at enough
        omega
    | extended block =>
        obtain ⟨-, block_eq⟩ : later.contents.lastMapPage = block ∧
          block.toNat = scene.image.contents.lastMapPage.toNat + 1 := extended
        exact congrArg _ (UInt32.toNat_inj.mp (block_eq.trans target_eq.symm))
  obtain ⟨scene', sane', -⟩ := sane.extended plain at_number (Prod.ext ok rfl) small
  have attempt := attempt_run Task.extendPlain.procedure (service.world accessor)
  rw [Task.procedure, Procedure.run_saying, ok] at attempt
  exact ⟨_, _, scene', .worked at_number suits attempt, rfl, sane', grows.size_le⟩

/-- Others add two pages to a new plain index, and two users open it. The first one adds the first of
these pages to the range map. The second one, which takes the range map to be empty still, extends it up to a
table block whose entry is on its second page. -/
theorem traffic_keeps_range_map_contiguous_overtaken : ∃ service state next last stale,
    Service.create (.empty "index" none) .empty 1 false = .ok service ∧
      service.Traffic [.grew 2, .opened, .opened] state ∧
      state.Step (.worked 0 .extendPlain (.ok (.grown (.extended 1)))) next ∧ next.contents.lastMapPage = 1 ∧
      next.accessors[1]? = some stale ∧ stale.lastMapPage = 0 ∧
      next.Step (.worked 1 (.use (.ensure 5454)) (.ok (.answered (.reached 2)))) last ∧ last.size < 2 ^ 32 ∧
      ∀ block, (∃ page, (pagesOf last.relation).page? block = some page ∧ isMap page = true) ↔
        1 ≤ block.toNat ∧ block.toNat ≤ last.contents.lastMapPage.toNat := by
  have bounds : 1 ≤ (1 : UInt32).toNat ∧ (1 : UInt32).toNat ≤ maxPagesPerRange := by decide
  have at_end := Log.Writer.atEnd_of_none_eq .empty
  obtain ⟨service, created, keeps⟩ := traffic_keeps_range_map_contiguous "index" bounds at_end
  have one := size_of_create bounds at_end created
  have sane := sane_of_create bounds at_end created
  have grown := sane.grow rfl 2 (by rw [one]; decide)
  have three : Service.size { service with relation := service.relation.growBy 2 } ≤ 3 := by
    rw [Service.size, buffers_growBy]
    exact Nat.le_of_eq (congrArg (· + 2) one)
  have blank : (pagesOf (service.relation.growBy 2)).page? 1 = some .zero := by
    rw [grown.shows.pages]
    exact Image.page?_growBy_new (size_created ▸ Nat.le_refl 1) (size_created ▸ (by decide))
  have empty : (pagesOf (service.relation.growBy 2)).contents.lastMapPage = 0 := by
    rw [grown.shows.pages, sane.sound.contents_growBy 2 (size_created ▸ (by decide)), contents_created]
    rfl
  have nobody : service.accessors = [] := List.length_eq_zero_iff.mp sane.count
  have grew : service.Step (.grew 2) { service with relation := service.relation.growBy 2 } := .grew 2
  -- the accessors know that there is no range map page yet
  have opened := grown.step_opened
  obtain ⟨_, sane₁, size₁, relation₁, accessors₁⟩ := grown.open_within 3 three (by decide)
  generalize (Service.perform _ .openAccessor).2 = service₁ at opened sane₁ size₁ relation₁ accessors₁
  have opened' := sane₁.step_opened
  obtain ⟨_, sane₂, size₂, relation₂, accessors₂⟩ := sane₁.open_within 3 size₁ (by decide)
  generalize (service₁.perform .openAccessor).2 = state at opened' sane₂ size₂ relation₂ accessors₂
  rw [accessors₁, nobody, List.nil_append, relation₁] at accessors₂
  have contents : state.contents.lastMapPage = 0 := by
    rw [Service.contents, relation₂, relation₁]
    exact empty
  -- the first accessor adds a page
  obtain ⟨next, accessor, _, extended, accessors₃, sane₃, size₃⟩ := sane₂.extend_plain rfl
    (by rw [accessors₂]; rfl : state.accessors[0]? = some _) (empty.trans contents.symm)
    (by rw [contents, relation₂, relation₁]; exact blank)
    (Nat.lt_of_le_of_lt (Nat.add_le_add_right size₂ _) (by decide))
  rw [contents] at extended
  have size₃ := Nat.le_trans size₃ (Nat.le_trans (Nat.add_le_add_right size₂ _) (by decide : _ ≤ 2 ^ 20))
  have traffic := Service.Traffic.cons grew (.cons opened (.cons opened' .nil))
  obtain ⟨-, -, steps⟩ := keeps _ _ traffic (Nat.lt_of_le_of_lt size₂ (by decide))
  obtain ⟨-, grows, -⟩ := steps _ _ extended (Nat.lt_of_le_of_lt size₃ (by decide))
  obtain ⟨growth, ok, grown⟩ := (grows _ _ rfl).resolve_left (by rintro ⟨⟩)
  obtain rfl := Report.grown.inj (Except.ok.inj ok)
  -- the second accessor has seen nothing of this
  rw [accessors₂] at accessors₃
  have stale : next.accessors[1]? = some (.ofMetapage (service.relation.growBy 2).name
      (pagesOf (service.relation.growBy 2)).contents) := by
    rw [accessors₃]
    rfl
  obtain ⟨block, _, answered, -, size₄⟩ := sane₃.ensure_within (List.getElem?_eq_some_iff.mp stale).1 5454 (2 ^ 21)
    (Nat.le_trans (Nat.add_le_add_right size₃ _) (by decide)) (by decide)
  have ensured := Service.step_use answered
  generalize (next.perform (.use 1 (.ensure 5454))).2 = last at ensured size₄
  have small := Nat.lt_of_le_of_lt size₄ (by decide : 2 ^ 21 < 2 ^ 32)
  have traffic' := Service.Traffic.cons grew (.cons opened (.cons opened' (.cons extended .nil)))
  obtain ⟨-, -, steps⟩ := keeps _ _ traffic' (Nat.lt_of_le_of_lt size₃ (by decide))
  obtain ⟨-, -, reaches⟩ := steps _ _ ensured small
  obtain ⟨reached, ok, reached_eq, -⟩ := (reaches _ _ _ rfl).resolve_left (by rintro ⟨⟩)
  obtain rfl := Answer.reached.inj (Report.answered.inj (Except.ok.inj ok))
  obtain rfl : block = 2 := UInt32.toNat_inj.mp reached_eq
  have traffic'' := Service.Traffic.cons grew (.cons opened (.cons opened' (.cons extended (.cons ensured .nil))))
  exact ⟨service, state, next, last, _, created, traffic, extended, grown.1, stale, empty, ensured, small,
    (keeps _ _ traffic'' small).1⟩

end Plain

end Warehouse.RangeIndex
