import Warehouse.Proofs.RangeIndex.Traffic

/-! # Positions in chains

An accessor keeps a position in a chain, from which it goes on when it looks for the entry of a table block. It
answers what an accessor would answer that was just opened, as long as it knows the chain as it is. There is one
exception: an accessor that went to a chain of which it knew no page is not at a page of it, and goes on from
nowhere even when it has learnt of pages since. It is stranded. -/

namespace Warehouse.RangeIndex

/-- The accessor is in a chain, but not at a page of it. -/
def Accessor.Stranded (accessor : Accessor) (sequence : Nat) : Prop :=
  accessor.position.sequence = some sequence ∧ accessor.position.logical = 0

/-- Looking up the page that has the entry of a table block answers `found` unless it is told to stop. -/
def Service.LooksUp (service : Service) (accessor : Accessor) (heapBlock : BlockNumber) (found : Option BlockNumber) :
    Prop :=
  ∀ outcome world, Attempt (RangeMap.lookup Session.rounds heapBlock) (service.world accessor) outcome world →
    world.relation.buffers.size < 2 ^ 32 → outcome = .error (.error .cancelled) ∨ outcome = .ok found

namespace Accessor

variable {accessor : Accessor} {heapBlock : BlockNumber}

/-- A stranded accessor is blind to whatever its chain has. -/
theorem Stranded.blind (chained : accessor.addressing.appendOnly = true)
    (stranded : accessor.Stranded (sequenceOf heapBlock)) : accessor.Blind heapBlock := by
  have near : ¬ (accessor.position.sequence ≠ some (sequenceOf heapBlock) ∨
      accessor.addressing.target heapBlock < accessor.position.logical) := by
    rw [stranded.1, stranded.2]
    simp
  rw [Blind, if_pos chained, if_neg near]
  exact stranded.2

/-- Any other accessor is blind only where it knows no page. -/
theorem chainOf_eq_empty_of_blind (chained : accessor.addressing.appendOnly = true) (blind : accessor.Blind heapBlock)
    (free : ¬ accessor.Stranded (sequenceOf heapBlock)) : accessor.chainOf (sequenceOf heapBlock) = .empty := by
  rw [Blind, if_pos chained] at blind
  split at blind
  · exact blind
  · rename_i near
    exact absurd ⟨Decidable.not_not.mp (not_or.mp near).1, blind⟩ free

end Accessor

/-- At most one page has the entry of a table block. -/
theorem Geometry.exists_covering {image : Image} {contents : Metapage} (shape : Geometry image contents)
    (heapBlock : BlockNumber) : ∃ found, ∀ block, found = some block ↔ Covers image contents heapBlock block := by
  by_cases covered : ∃ block, Covers image contents heapBlock block
  · obtain ⟨block, covered⟩ := covered
    refine ⟨some block, fun other => ⟨?_, ?_⟩⟩
    · rintro ⟨⟩
      exact covered
    · intro covered'
      rw [shape.covers_unique covered covered']
  · refine ⟨none, fun other => ⟨nofun, ?_⟩⟩
    intro covered'
    exact absurd ⟨other, covered'⟩ covered

section Moments

variable {mode : Mode} {moment : Moment} {heapBlock : BlockNumber} {sequence rounds : Nat} {target : UInt32}

/-- Going to the first page of a chain strands an accessor that knows no page of it. -/
theorem toStart_strands (steady : Steady mode moment) (held : moment.HoldsRegular)
    (chained : moment.contents.appendOnly = true) (bound : sequence < sequenceCount)
    (unknown : moment.accessor.chainOf sequence = .empty) :
    Ensures mode (fun _ later => Looks mode moment later ∧ later.accessor.Stranded sequence)
      (Chains.toStart sequence) moment := by
  apply (toStart_spec steady held chained bound).mono
  rintro - later ⟨looks, at_sequence, ⟨-, zero⟩ | ⟨first, -, inside⟩⟩
  · exact ⟨looks, at_sequence, zero⟩
  · -- no page of a chain has the number that stands for none
    rw [unknown] at first
    exact absurd first.symm (looks.steady.sound.shape.inChain_ne_invalid inside)

/-- There is no way on from nowhere. -/
theorem advance_nowhere (steady : Steady mode moment) (nowhere : moment.accessor.position.logical = 0) :
    Ensures mode (fun found _ => found = none) (Chains.advance rounds target) moment := by
  simp only [Chains.advance]
  apply steady.accessor
  intro later _ _ _
  rw [if_pos nowhere]
  exact rfl

/-- An accessor does not find what it is blind to. -/
theorem lookup_blind (steady : Steady mode moment) (held : moment.HoldsRegular)
    (blind : moment.accessor.Blind heapBlock) :
    Ensures mode (fun found _ => found = none) (RangeMap.lookup rounds heapBlock) moment := by
  have addressing := steady.knows.addressing_eq
  have valid : moment.accessor.addressing.Valid := addressing ▸ steady.sound.shape.valid
  simp only [RangeMap.lookup]
  apply steady.accessor
  intro middle waits steady' same
  rw [Accessor.Blind] at blind
  split
  · rename_i chained
    have kind : middle.contents.appendOnly = true := by
      rw [addressing] at chained
      exact (steady.kind_eq waits).trans chained
    rw [if_pos chained] at blind
    rw [Addressing.logicalPage_eq valid chained, ensures_lift_ok]
    split at blind
    · rename_i away
      rw [if_pos away]
      rw [← same] at blind
      apply (toStart_strands steady' (held.wait waits) kind (sequenceOf_lt heapBlock) blind).andThen
      rintro - later ⟨looks, -, nowhere⟩
      exact advance_nowhere looks.steady nowhere
    · rename_i near
      rw [if_neg near]
      rw [← same] at blind
      exact advance_nowhere steady' blind
  · rename_i plain
    have plain : moment.accessor.addressing.appendOnly = false := (Bool.not_eq_true _).mp plain
    rw [if_neg (by rw [plain]; decide)] at blind
    rw [Addressing.mapBlock_eq valid plain, ensures_lift_ok, ensures_pure, if_neg (UInt32.not_le.mpr blind)]

end Moments

section Calls

variable {addressing : Addressing} {gaps : Bool} {service last : Service} {scene : Scene} {accessor : Accessor}
  {heapBlock : BlockNumber} {found : Option BlockNumber}

namespace Upheld

/-- An accessor that knows nothing wrong finds the page that has the entry, unless it is blind to it. -/
theorem looksUp (upheld : Upheld addressing gaps service scene) (gapless : Gapless scene.image scene.image.contents)
    (knows : Knows scene.image scene.image.contents accessor)
    (reached : ∀ block, found = some block ↔ Covers scene.image scene.image.contents heapBlock block) :
    (¬ accessor.Blind heapBlock → service.LooksUp accessor heapBlock found) ∧
      (accessor.Blind heapBlock → service.LooksUp accessor heapBlock none) := by
  have steady : Steady .solo ⟨scene.far, scene.far, accessor, []⟩ := ⟨upheld.sound, knows, fun _ => gapless, .refl⟩
  have free : Moment.HoldsRegular ⟨scene.far, scene.far, accessor, []⟩ := Moment.holdsRegular_of_free rfl
  constructor
  · intro sighted outcome world attempt room
    obtain cancelled | ⟨answer, later, ok, -, looks, present, absent, -⟩ :=
      upheld.attempt_alone (lookup_spec heapBlock steady free fun _ => enoughRounds_le) attempt room
    · exact .inl cancelled
    · right
      rw [ok]
      cases answer with
      | some block =>
          have covered := covers_solo looks.waits (present block rfl).1
          rw [(reached block).mpr covered]
      | none =>
          obtain blind | uncovered := absent rfl rfl
          · exact absurd blind sighted
          · cases found with
            | none => rfl
            | some block => exact absurd ((reached block).mp rfl) (uncovered block)
  · intro blind outcome world attempt room
    obtain cancelled | ⟨answer, later, ok, -, rfl⟩ :=
      upheld.attempt_alone (lookup_blind steady free blind) attempt room
    · exact .inl cancelled
    · exact .inr ok

/-- An accessor that knows the chain of a table block as it is finds the page that has the entry, as an accessor does
that was just opened, unless it is stranded in the chain. Then it finds nothing. -/
theorem looksUp_as_opened (upheld : Upheld addressing gaps service scene)
    (gapless : Gapless scene.image scene.image.contents) (chained : addressing.appendOnly = true)
    (knows : Knows scene.image scene.image.contents accessor)
    (cached : accessor.chainOf (sequenceOf heapBlock) = scene.image.contents.chain (sequenceOf heapBlock)) :
    ∃ found, (∀ block, found = some block ↔ Covers scene.image scene.image.contents heapBlock block) ∧
      service.LooksUp (.ofMetapage service.relation.name scene.image.contents) heapBlock found ∧
      (¬ accessor.Stranded (sequenceOf heapBlock) → service.LooksUp accessor heapBlock found) ∧
      (accessor.Stranded (sequenceOf heapBlock) → service.LooksUp accessor heapBlock none) := by
  have shape := upheld.sound.shape
  have kind : scene.image.contents.appendOnly = true :=
    (congrArg Addressing.appendOnly upheld.addressing_eq).trans chained
  obtain ⟨found, reached⟩ := shape.exists_covering heapBlock
  -- an accessor that is not stranded is blind only where the chain is empty, so that there is nothing to be found
  have answers : ∀ {accessor : Accessor}, Knows scene.image scene.image.contents accessor →
      accessor.chainOf (sequenceOf heapBlock) = scene.image.contents.chain (sequenceOf heapBlock) →
        ¬ accessor.Stranded (sequenceOf heapBlock) → service.LooksUp accessor heapBlock found := by
    intro accessor knows cached free
    have chained' : accessor.addressing.appendOnly = true := knows.addressing_eq ▸ kind
    obtain ⟨sighted, blinded⟩ := upheld.looksUp gapless knows reached
    by_cases blind : accessor.Blind heapBlock
    · have empty := cached.symm.trans (Accessor.chainOf_eq_empty_of_blind chained' blind free)
      have nothing : found = none := by
        rw [Option.eq_none_iff_forall_ne_some]
        intro block same
        have covered := (reached block).mp same
        rw [Covers, if_pos kind] at covered
        exact shape.not_inChain_of_empty kind (sequenceOf_lt heapBlock) empty covered
      rw [nothing]
      exact blinded blind
    · exact sighted blind
  refine ⟨found, reached, answers (shape.knows _) rfl ?_, answers knows cached, fun stranded => ?_⟩
  · rintro ⟨nowhere, -⟩
    contradiction
  · apply (upheld.looksUp gapless knows reached).2
    apply stranded.blind
    rw [knows.addressing_eq]
    exact kind

end Upheld

/-- So it is after whatever workers have done with the index, as long as they left no gap between the numbers of the
pages of a chain. -/
theorem lookups_after_traffic {happenings : List Happening} {ledger : Ledger}
    (sane : Sane service scene addressing ledger) (chained : addressing.appendOnly = true)
    (traffic : service.Traffic happenings last) (room : last.size < 2 ^ 32)
    (gapless : Gapless (pagesOf last.relation) last.contents) :
    ∀ accessor ∈ last.accessors, ∀ heapBlock,
      accessor.chainOf (sequenceOf heapBlock) = last.contents.chain (sequenceOf heapBlock) →
        ∃ found, (∀ block, found = some block ↔ Covers (pagesOf last.relation) last.contents heapBlock block) ∧
          last.LooksUp (.ofMetapage last.relation.name last.contents) heapBlock found ∧
          (¬ accessor.Stranded (sequenceOf heapBlock) → last.LooksUp accessor heapBlock found) ∧
          (accessor.Stranded (sequenceOf heapBlock) → last.LooksUp accessor heapBlock none) := by
  obtain ⟨after, upheld, -⟩ := (sane.upheld true).run traffic (fun dense => by cases dense) room
  rw [Service.contents, upheld.shows.pages] at gapless ⊢
  intro accessor member heapBlock
  exact upheld.looksUp_as_opened gapless chained (upheld.knows accessor member)

end Calls

end Warehouse.RangeIndex
