import Warehouse.Proofs.RangeIndex.Operations

/-! # Creating an index

A new index has nothing but its metapage. It is sound, it binds no range, and its log knows
all about it. -/

namespace Warehouse.RangeIndex

/-- The scene when an index was created in an empty relation. -/
def Scene.created (pagesPerRange : UInt32) (appendOnly : Bool) (log : Option Journal) : Scene :=
  Scene.commit ⟨#[.zero], log⟩ (.createIndex pagesPerRange appendOnly)
    [(metaBlock, Metapage.initial pagesPerRange appendOnly)]

section Created

variable {pagesPerRange : UInt32} {appendOnly : Bool} {log : Option Journal} {block : BlockNumber} {page : Page}

theorem size_created : (Scene.created pagesPerRange appendOnly log).image.size = 1 := Scene.size_commit

theorem page?_created (pagesPerRange : UInt32) (appendOnly : Bool) (log : Option Journal) :
    (Scene.created pagesPerRange appendOnly log).image.page? metaBlock =
      some (Scene.stamp ⟨#[.zero], log⟩ (.createIndex pagesPerRange appendOnly)
        (Metapage.initial pagesPerRange appendOnly)) :=
  Scene.page?_commit_mem _ _ (List.nodup_singleton _) List.mem_cons_self
    (rfl : Image.page? #[.zero] metaBlock = some .zero)

/-- The metapage is the only page. -/
theorem block_created (at_block : (Scene.created pagesPerRange appendOnly log).image.page? block = some page) :
    block = metaBlock := by
  have inside := Image.lt_of_page? at_block
  rw [size_created] at inside
  exact UInt32.toNat_inj.mp (by rw [Nat.lt_one_iff.mp inside]; rfl)

theorem holds_created : Metapage.Holds (Scene.stamp ⟨#[.zero], log⟩ (.createIndex pagesPerRange appendOnly)
    (Metapage.initial pagesPerRange appendOnly)) (.new pagesPerRange appendOnly) :=
  (Metapage.holds_initial pagesPerRange appendOnly).congr
    ((Scene.sameOn_stamp _ _ _).mono (by decide) (Nat.le_refl _))

theorem contents_created :
    (Scene.created pagesPerRange appendOnly log).image.contents = .new pagesPerRange appendOnly :=
  Image.contents_eq ⟨_, page?_created _ _ _, holds_created⟩

theorem chain_new (sequence : Nat) : (Metapage.new pagesPerRange appendOnly).chain sequence = .empty := by
  rw [Metapage.chain, Metapage.new, Vector.getElem?_replicate]
  split
  · rfl
  · rfl

theorem geometry_created (valid : (Metapage.new pagesPerRange appendOnly).addressing.Valid) :
    Geometry (Scene.created pagesPerRange appendOnly log).image (.new pagesPerRange appendOnly) where
  small := by
    rw [size_created]
    decide
  metapage := ⟨_, page?_created _ _ _, holds_created⟩
  valid := valid
  kinds block page first at_block := absurd (block_created at_block) first
  plain _ block := by
    constructor
    · rintro ⟨page, at_block, map⟩
      obtain rfl := block_created at_block
      rw [page?_created] at at_block
      obtain rfl := Option.some.inj at_block
      exact absurd (map.kind.symm.trans (Metapage.holds_iff.mp holds_created).1) (by decide)
    · rintro ⟨first, le⟩
      have zero : block.toNat ≤ 0 := UInt32.le_iff_toNat_le.mp le
      exact absurd (UInt32.toNat_inj.mp (by rw [Nat.le_zero.mp zero]; rfl)) first
  chained _ := by
    refine ⟨fun _ => [], fun sequence _ => ?_, fun block page at_block map => ?_, fun _ _ _ _ _ mem => ?_⟩
    · rw [chain_new]
      exact ⟨.nil _, .nil, fun _ mem => absurd mem List.not_mem_nil, .inl ⟨rfl, rfl⟩⟩
    · obtain rfl := block_created at_block
      rw [page?_created] at at_block
      obtain rfl := Option.some.inj at_block
      exact absurd (map.kind.symm.trans (Metapage.holds_iff.mp holds_created).1) (by decide)
    · exact absurd mem List.not_mem_nil

theorem entryIn_created (block : BlockNumber) (index : Nat) :
    entryIn (Scene.created pagesPerRange appendOnly log).image block index = none := by
  rw [entryIn]
  split
  · rename_i page at_block
    obtain rfl := block_created at_block
    exact (entryIn_of_page at_block).symm.trans
      (entryIn_meta (page?_created _ _ _) (Metapage.holds_iff.mp holds_created).1)
  · rfl

theorem tupleAt_created (place : ItemPointer) :
    tupleAt (Scene.created pagesPerRange appendOnly log).image place = none := by
  cases at_block : (Scene.created pagesPerRange appendOnly log).image.page? place.block with
  | none => rw [tupleAt, at_block]
  | some page =>
      have first := block_created at_block
      have at_meta := page?_created pagesPerRange appendOnly log
      rw [← first] at at_meta
      exact tupleAt_meta at_meta (Metapage.holds_iff.mp holds_created).1

/-- A new index is sound. -/
theorem sound_created (valid : (Metapage.new pagesPerRange appendOnly).addressing.Valid) :
    Sound (Scene.created pagesPerRange appendOnly log).image
      (Scene.created pagesPerRange appendOnly log).image.contents := by
  rw [contents_created]
  refine ⟨geometry_created valid, fun block index place entry => ?_, fun place bytes tuple => ?_⟩
  · cases (entryIn_created block index).symm.trans entry
  · cases (tupleAt_created place).symm.trans tuple

/-- A new index binds no range. -/
theorem not_binds_created (heapBlock : BlockNumber) (payload : List UInt8) :
    ¬ Binds (Scene.created pagesPerRange appendOnly log).image
      (Scene.created pagesPerRange appendOnly log).image.contents heapBlock payload := by
  rintro ⟨block, place, -, -, entry, -⟩
  cases (entryIn_created block _).symm.trans entry

theorem gapless_created : Gapless (Scene.created pagesPerRange appendOnly log).image
    (Scene.created pagesPerRange appendOnly log).image.contents := by
  intro sequence bound number ne le
  rw [contents_created, chain_new] at le
  exact absurd (UInt32.le_antisymm le UInt32.zero_le) ne

/-- The log of a new index knows its only page. -/
theorem not_loose_created (block : BlockNumber) : ¬ (Scene.created pagesPerRange appendOnly log).Loose block := by
  rintro ⟨journal', page, log_eq, room, at_block, cause⟩
  obtain rfl := block_created at_block
  rw [page?_created] at at_block
  obtain rfl := Option.some.inj at_block
  cases log with
  | none => cases log_eq
  | some journal =>
      obtain rfl := Option.some.inj log_eq
      rcases cause with zero | flag
      · rw [Scene.stamp, Page.lsn_setLsn] at zero
        exact Journal.position_ne_zero room zero
      · rw [isEvacuating_congr ((Scene.sameOn_stamp _ _ _).mono (by decide) (by decide)),
          Metapage.initial, isEvacuating_congr (Metapage.sameOn_write _ _ (.inr (by decide)) (.inr (by decide))),
          isEvacuating_freshPage] at flag
        cases flag

end Created

/-- Creating an index in an empty relation. -/
theorem create_spec {moment : Moment} {index : String} {pagesPerRange : UInt32} {appendOnly : Bool}
    (valid : (Metapage.new pagesPerRange appendOnly).addressing.Valid) (free : moment.held = [])
    (empty : moment.scene.image = #[]) (start : moment.base = moment.scene) :
    Ensures .solo (fun _ later => later.held = [] ∧ later.accessor = moment.accessor ∧
      later.scene = .created pagesPerRange appendOnly moment.scene.log)
      (create index pagesPerRange appendOnly) moment := by
  have allowed : ¬ (pagesPerRange = 0 ∨ maxPagesPerRange < pagesPerRange.toNat) := by
    rw [not_or]
    refine ⟨fun zero => ?_, Nat.not_lt.mpr valid.bounded⟩
    have positive : 0 < pagesPerRange.toNat := valid.positive
    rw [zero] at positive
    exact absurd positive (by decide)
  obtain ⟨base, ⟨image, log⟩, accessor, held⟩ := moment
  obtain rfl : image = #[] := empty
  obtain rfl : held = [] := free
  obtain rfl : base = ⟨#[], log⟩ := start
  -- what is done once the first page has been added
  have finish : ∀ block, block = metaBlock → Ensures .solo (fun _ later => later.held = [] ∧
      later.accessor = accessor ∧ later.scene = .created pagesPerRange appendOnly log)
      (do
        let _ ← Procedure.acquire block
        Procedure.change block (Metapage.initial pagesPerRange appendOnly)
        Procedure.logged (.createIndex pagesPerRange appendOnly)
          [(block, Metapage.initial pagesPerRange appendOnly)]
        Procedure.releaseAll) ⟨⟨#[], log⟩, ⟨#[.zero], log⟩, accessor, []⟩ := by
    rintro block rfl
    have room : Array.size (#[] : Image) + 1 < 2 ^ 32 := by decide
    refine Ensures.unlocked rfl (.single (.grow room)) ?_
    rintro scene rfl
    have unlocked : ([] : List BlockNumber).contains metaBlock = false := rfl
    have at_meta : Image.page? #[.zero] metaBlock = some .zero := rfl
    have held : [metaBlock] ≠ [] := List.cons_ne_nil _ _
    simp only [Moment.Serves, Moment.Locks, unlocked, Bool.false_eq_true, if_false, at_meta]
    have written : Scene.mk (Image.put #[.zero] metaBlock (Metapage.initial pagesPerRange appendOnly)) log =
        ⟨(Scene.mk #[.zero] log).image.putAll [(metaBlock, Metapage.initial pagesPerRange appendOnly)],
          (Scene.mk #[.zero] log).log⟩ := rfl
    have small : Array.size (#[.zero] : Image) ≤ 2 ^ 32 := by decide
    refine Ensures.change held (Ensures.logged held (.create at_meta) small (List.nodup_singleton _)
      (.refl _) written ?_)
    exact Ensures.locked held ⟨rfl, rfl, rfl⟩
  simp only [create, if_neg allowed]
  refine Ensures.unlocked rfl .refl ?_
  rintro scene rfl
  simp only [Moment.Serves]
  refine Ensures.unlocked rfl .refl ?_
  rintro scene rfl extra alone -
  obtain rfl : extra = 0 := alone rfl (.inl rfl)
  change Ensures .solo _ (if (0 : BlockNumber) ≠ metaBlock then _ else _) ⟨⟨#[], log⟩, ⟨#[.zero], log⟩, accessor, []⟩
  rw [if_neg (by decide)]
  exact finish _ rfl

end Warehouse.RangeIndex
