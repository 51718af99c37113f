import Warehouse.Proofs.RangeIndex.Coverage

/-! # Binding and unbinding ranges

What the operations on an index do. Inserting a summary extends the range map, which binds
nothing, and then commits one change of its own; removing one commits one change. Alone, every
operation ends without failure, and leaves no page that the log does not know about. -/

namespace Warehouse.RangeIndex

section Binding

variable {mode : Mode} {moment : Moment} {heapBlock : BlockNumber} {tuple payload : List UInt8}
  {limit rounds index : Nat}

/-- Alone, the operation bound a range anew, or unbound it, and left no loose page. -/
structure Settles (moment : Moment) (heapBlock : BlockNumber) (new : Option (List UInt8)) (later : Moment) :
    Prop where
  rebinds : Rebinds moment.scene later.scene heapBlock new
  clean : ∀ block, ¬ later.scene.Loose block

/-- Storing a summary for a range that has none. An operation that may not bind the range still
keeps its contract as long as it changes nothing. -/
theorem store_spec {may : Prop} (steady : Steady mode moment) (free : moment.held = [])
    (start : moment.contents.addressing.IsStart heapBlock)
    (decoded : Summary.decode tuple = some ⟨heapBlock, payload⟩) (short : tuple.length ≤ maxTupleSize)
    (unbound : mode = .solo → ∀ payload, ¬ Binds moment.scene.image moment.contents heapBlock payload)
    (reaches : mode = .solo → moment.accessor.Reaches heapBlock)
    (clean : mode = .solo → ∀ block, ¬ moment.scene.Loose block)
    (grants : may → mode.Grants heapBlock (some payload)) (fuel : mode = .solo → enoughRounds ≤ rounds) :
    Ensures mode (fun stored later => later.held = [] ∧ (may ∨ stored = none → Steady mode later) ∧
      later.accessor.addressing = moment.accessor.addressing ∧
      (stored ≠ none → Binds later.scene.image later.contents heapBlock payload) ∧
      (mode = .solo → stored ≠ none ∧ Settles moment heapBlock (some payload) later))
      (store rounds moment.accessor.addressing heapBlock (moment.accessor.addressing.slot heapBlock) tuple)
      moment := by
  simp only [store]
  refine (lockSite_spec steady (fun block mem => ?_) (Moment.holdsRegular_of_free free)
    (fun solo block loose => absurd loose (clean solo block)) short (fun solo => ?_)).andThen ?_
  · rw [free] at mem
    exact absurd mem List.not_mem_nil
  · have := fuel solo
    simp only [enoughRounds] at this
    omega
  rintro site m1 sited
  refine (lockPage_spec heapBlock sited.adds.steady (sited.holdsRegular (Moment.holdsRegular_of_free free)) fuel
    fun solo => by rw [sited.adds.accessor_eq]; exact reaches solo).andThen ?_
  rintro ⟨mapBlock, mapPage⟩ m2 locked
  have held1 : m1.held ≠ [] := by
    rw [sited.held_eq]
    exact List.cons_ne_nil _ _
  have held2 : m2.held ≠ [] := by
    rw [locked.held_eq]
    exact List.cons_ne_nil _ _
  have scene2 : m2.scene = m1.scene := (locked.locked held1).1
  have drift2 : Drift mode moment.scene m2.scene := by
    rw [scene2]
    exact sited.adds.drift
  have addressing2' : m2.accessor.addressing = moment.accessor.addressing := by
    rw [locked.cache.addressing_eq, sited.adds.accessor_eq]
  have addressing2 : m2.contents.addressing = moment.accessor.addressing := by
    rw [← locked.steady.knows.addressing_eq, addressing2']
  have sound2 := locked.steady.sound
  have bound := moment.accessor.addressing.slot_lt heapBlock
  have start2 : m2.contents.addressing.IsStart heapBlock := by
    rw [addressing2, steady.knows.addressing_eq]
    exact start
  simp only
  rw [entry_eq mapPage bound, ensures_lift_ok]
  cases taken : (entryAt mapPage (moment.accessor.addressing.slot heapBlock)).isValid with
  | true =>
      refine Ensures.locked held2 ⟨rfl, fun _ => locked.steady.lock _, addressing2', (absurd rfl ·), ?_⟩
      rintro rfl
      have entry := entryIn_valid locked.at_block locked.map bound rfl taken
      rw [← addressing2] at entry
      obtain ⟨-, before, -, -, binds⟩ :=
        sound2.linked.binds_of_entry sound2.shape.functional start2 locked.covered entry
      exact absurd ((drift2.neutral heapBlock before).mp binds) (unbound rfl before)
  | false =>
      refine (addTo_spec held2 sited.good.regular sited.fits decoded
        fun offset page' added stored valid_new => ?_).andThen fun _ _ eq => eq
      have change : Change mode m2.scene m2.contents _ _ m2.contents :=
        .insert start2 decoded locked.covered (by rw [scene2]; exact sited.good) added stored valid_new
          locked.at_block (by rw [addressing2]; exact taken)
      rw [setEntry_eq mapPage bound, ensures_lift_ok, ← addressing2]
      refine Ensures.write held2 (Ensures.markDirty held2 (Ensures.markDirty held2 ?_))
      refine Ensures.committed held2 locked.steady.evolves sound2 change (.refl _) rfl ?_
      have rebinds : Log.Record.rebinds (.insert heapBlock m2.contents.pagesPerRange m2.contents.appendOnly mapBlock
          site.block offset tuple site.fresh) = some (heapBlock, some payload) := by
        simp only [Log.Record.rebinds, decoded, Option.map_some]
      have committed (allowed : may) :=
        locked.steady.advance (.commit sound2 change ((grants allowed).permits rebinds))
      refine Ensures.locked held2 ⟨rfl,
        fun allowed => (committed (allowed.resolve_right (Option.some_ne_none _))).lock [],
        addressing2'.trans addressing2.symm,
        fun _ => change.binds sound2 rebinds, ?_⟩
      rintro rfl
      refine ⟨Option.some_ne_none _, ⟨_, _, _, _, drift2, change, rfl, rebinds⟩, fun block loose => ?_⟩
      · obtain ⟨loose, flags⟩ := change.loose sound2 loose
        rw [scene2] at loose
        rcases sited.loose rfl block loose with loose | rfl
        · exact clean rfl block loose
        · have flag := flags page' List.mem_cons_self
          rw [sited.good.regular.isEvacuating_of_frame stored.frame, sited.good.takes] at flag
          cases flag

/-- What a finding says about the place that it found. -/
theorem Finding.stored_tuple {found : Option FoundSummary} {summary : FoundSummary}
    (finding : Finding moment heapBlock found)
    (steady : Steady mode moment) (start : moment.contents.addressing.IsStart heapBlock)
    (eq : found = some summary) : ∃ bytes before, tupleAt moment.scene.image summary.place = some bytes ∧
      Summary.decode bytes = some ⟨heapBlock, before⟩ := by
  obtain ⟨-, -, block, covered, entry⟩ := finding.present summary eq
  obtain ⟨bytes, before, tuple, decoded, -⟩ :=
    steady.sound.linked.binds_of_entry steady.sound.shape.functional start covered entry
  exact ⟨bytes, before, tuple, decoded⟩

/-- Storing the summary of a range that the range map covers. Alone, the first round does it. -/
theorem bind_spec {may : Prop} (steady : Steady mode moment) (free : moment.held = [])
    (start : moment.contents.addressing.IsStart heapBlock)
    (decoded : Summary.decode tuple = some ⟨heapBlock, payload⟩) (short : tuple.length ≤ maxTupleSize)
    (reaches : mode = .solo → moment.accessor.Reaches heapBlock)
    (clean : mode = .solo → ∀ block, ¬ moment.scene.Loose block)
    (grants : may → mode.Grants heapBlock (some payload))
    (fuel : mode = .solo → enoughRounds ≤ limit ∧ 1 ≤ rounds) :
    Ensures mode (fun _ later => later.held = [] ∧ (may → Steady mode later) ∧
      later.accessor.addressing = moment.accessor.addressing ∧
      Binds later.scene.image later.contents heapBlock payload ∧
      (mode = .solo → Settles moment heapBlock (some payload) later))
      (bind limit moment.accessor.addressing heapBlock (moment.accessor.addressing.slot heapBlock) tuple rounds)
      moment := by
  induction rounds generalizing moment with
  | zero =>
      cases mode with
      | shared rights => exact ⟨Mode.shared_ne_solo rights, steady⟩
      | solo => exact absurd (fuel rfl).2 (by decide)
  | succ rounds ih =>
      simp only [bind]
      refine steady.poll fun m1 w1 s1 a1 => ?_
      refine (find_spec s1 (w1.held_eq.trans free) fun solo => (fuel solo).1).andThen ?_
      rintro found m2 ⟨looks2, -, alone2⟩
      have looks := (Looks.of_waits w1 s1 a1).trans looks2
      have free2 := looks.waits.held_eq.trans free
      have addressing2 : m2.accessor.addressing = moment.accessor.addressing := looks.cache.addressing_eq
      have start2 : m2.contents.addressing.IsStart heapBlock := by
        rw [steady.addressing_eq looks.waits]
        exact start
      have clean2 : mode = .solo → ∀ block, ¬ m2.scene.Loose block := by
        rintro rfl
        rw [looks.waits.scene_eq_of_solo]
        exact clean rfl
      have reaches2 : mode = .solo → m2.accessor.Reaches heapBlock := by
        rintro rfl
        refine (alone2 rfl).1 ?_
        rw [a1]
        exact reaches rfl
      have finding2 : mode = .solo → Finding m2 heapBlock found := by
        rintro rfl
        obtain ⟨-, -, ⟨blind, -⟩ | finding⟩ := alone2 rfl
        · exact absurd blind (s1.covers_of_reaches (by rw [a1]; exact reaches rfl)).1
        · have start1 : m1.contents.addressing.start heapBlock = heapBlock := by
            rw [contents_solo w1]
            exact start
          rw [start1] at finding
          obtain ⟨present, absent⟩ := finding
          rw [← contents_solo looks2.waits, ← looks2.waits.scene_eq_of_solo] at present absent
          exact ⟨present, absent⟩
      -- what happens next, whether the range has a summary or not
      have finish : ∀ stored later, later.held = [] → (may ∨ stored = none → Steady mode later) →
          later.accessor.addressing = moment.accessor.addressing →
          (stored ≠ none → Binds later.scene.image later.contents heapBlock payload) →
          (mode = .solo → stored ≠ none ∧ Settles m2 heapBlock (some payload) later) →
          Ensures mode (fun _ later => later.held = [] ∧ (may → Steady mode later) ∧
            later.accessor.addressing = moment.accessor.addressing ∧
            Binds later.scene.image later.contents heapBlock payload ∧
            (mode = .solo → Settles moment heapBlock (some payload) later))
            (stored.elim (bind limit moment.accessor.addressing heapBlock
              (moment.accessor.addressing.slot heapBlock) tuple rounds) pure) later := by
        intro stored later free3 s3 addressing3 bound3 done
        cases stored with
        | some place =>
            refine ⟨free3, fun allowed => s3 (.inl allowed), addressing3, bound3 (Option.some_ne_none _), ?_⟩
            rintro rfl
            obtain ⟨rebinds, clean⟩ := (done rfl).2
            rw [looks.waits.scene_eq_of_solo] at rebinds
            exact ⟨rebinds, clean⟩
        | none =>
            cases mode with
            | solo => exact absurd rfl (done rfl).1
            | shared rights gaps =>
                have shared := @Mode.shared_ne_solo rights gaps
                have s3 := s3 (.inr rfl)
                have again := ih s3 free3
                  (by rw [← s3.knows.addressing_eq, addressing3, steady.knows.addressing_eq]; exact start)
                  (fun solo => absurd solo shared) (fun solo => absurd solo shared) (fun solo => absurd solo shared)
                rw [addressing3] at again
                refine again.mono ?_
                rintro - m4 ⟨free4, s4, addressing4, bound4, -⟩
                exact ⟨free4, s4, addressing4, bound4, fun solo => absurd solo shared⟩
      cases found with
      | some summary =>
          refine (move_spec looks2.steady free2 start2 decoded short (fun solo => ?_) reaches2
            (fun solo block loose => absurd loose (clean2 solo block)) (fun allowed => (grants allowed).replaces _ _ _)
            fun solo => (fuel solo).1).andThen ?_
          · exact (finding2 solo).stored_tuple looks2.steady start2 rfl
          · rintro stored m3 ⟨free3, cache3, kept, bound3, done⟩
            have after := finish stored m3 free3 (fun allowed => (kept allowed).1)
              (cache3.addressing_eq.trans addressing2) bound3 fun solo =>
              (done solo).imp_right fun moves =>
                ⟨moves.rebinds, fun block loose => clean2 solo block (moves.loose block loose)⟩
            cases stored <;> exact after
      | none =>
          have stored := store_spec looks2.steady free2 start2 decoded short
            (fun solo => (finding2 solo).absent rfl) reaches2 clean2 grants fun solo => (fuel solo).1
          rw [addressing2] at stored
          refine stored.andThen ?_
          rintro stored m3 ⟨free3, s3, addressing3, bound3, done⟩
          have after := finish stored m3 free3 s3 addressing3 bound3 done
          cases stored <;> exact after

/-- As `insert`, with rounds of their own for the extensions of the range map and for binding. -/
def insertWithin (rounds extensions attempts : Nat) (heapBlock : BlockNumber) (payload : List UInt8) :
    Procedure ItemPointer := do
  let addressing := (← Procedure.accessor).addressing
  let heapBlock ← addressing.rangeStart heapBlock
  let tuple := Summary.encode ⟨heapBlock, payload⟩
  if maxTupleSize < tuple.length then Procedure.report (.pageFull invalidBlock)
  let _ ← Coverage.ensureWithin rounds extensions heapBlock
  let index ← addressing.entryIndex heapBlock
  bind rounds addressing heapBlock index tuple attempts

/-- Inserting the summary of a range. An operation that may not bind the range keeps its contract
up to the end. Alone, the rounds that the range needs are enough, and one to bind it. -/
theorem insertWithin_spec {may : Prop} {extensions attempts : Nat} (steady : Steady mode moment)
    (free : moment.held = []) (clean : mode = .solo → ∀ block, ¬ moment.scene.Loose block)
    (short : mode = .solo → payload.length + 4 ≤ maxTupleSize)
    (grants : may → mode.Grants (moment.contents.addressing.start heapBlock) (some payload))
    (fuel : mode = .solo → enoughRounds ≤ rounds ∧
      moment.accessor.addressing.roundsFor (moment.accessor.addressing.start heapBlock) ≤ extensions ∧ 1 ≤ attempts) :
    Ensures mode (fun _ later => later.held = [] ∧ (may → Steady mode later) ∧
      later.accessor.addressing = moment.accessor.addressing ∧
      Binds later.scene.image later.contents (moment.contents.addressing.start heapBlock) payload ∧
      (mode = .solo → Settles moment (moment.contents.addressing.start heapBlock) (some payload) later ∧
        (moment.accessor.Anchored → later.accessor.Sights (moment.contents.addressing.start heapBlock))))
      (insertWithin rounds extensions attempts heapBlock payload) moment := by
  have addressing := steady.knows.addressing_eq
  have valid : moment.accessor.addressing.Valid := by
    rw [addressing]
    exact steady.sound.shape.valid
  simp only [insertWithin]
  refine steady.accessor fun m1 w1 s1 a1 => ?_
  rw [Addressing.rangeStart_eq valid, ensures_lift_ok]
  have length := Summary.length_encode (moment.accessor.addressing.start heapBlock) payload
  by_cases long : maxTupleSize < (Summary.encode ⟨moment.accessor.addressing.start heapBlock, payload⟩).length
  · rw [if_pos long]
    cases mode with
    | shared rights => exact ⟨Mode.shared_ne_solo rights, s1⟩
    | solo =>
        have := short rfl
        omega
  · rw [if_neg long]
    have clean1 : mode = .solo → ∀ block, ¬ m1.scene.Loose block := by
      rintro rfl
      rw [w1.scene_eq_of_solo]
      exact clean rfl
    refine ((ensureWithin_spec s1 (w1.held_eq.trans free) clean1 fun solo => ?_).keeping fun _ => .refl _).andThen ?_
    · rw [a1]
      exact ⟨(fuel solo).1, (fuel solo).2.1⟩
    rintro reached m2 ⟨⟨free2, s2, addressing2, -, rest⟩, keeps2⟩
    rw [a1] at addressing2
    have start2 : m2.contents.addressing.IsStart (moment.accessor.addressing.start heapBlock) := by
      rw [← s2.knows.addressing_eq, addressing2]
      exact Addressing.isStart_start valid _
    rw [Addressing.entryIndex_eq valid, ensures_lift_ok]
    have once : mode = .solo → enoughRounds ≤ rounds ∧ 1 ≤ attempts := fun solo =>
      ⟨(fuel solo).1, (fuel solo).2.2⟩
    rw [← addressing] at grants ⊢
    have bound := bind_spec s2 free2 start2 (Summary.decode_encode _) (Nat.not_lt.mp long)
      (fun solo => (rest solo).2.2) (fun solo => (rest solo).2.1) grants once
    rw [addressing2] at bound
    refine (bound.keeping fun _ => .refl _).mono ?_
    rintro - m3 ⟨⟨free3, s3, addressing3, bound3, done⟩, keeps3⟩
    refine ⟨free3, s3, addressing3, bound3, ?_⟩
    rintro rfl
    obtain ⟨rebinds, clean⟩ := done rfl
    have sights : moment.accessor.Anchored → m3.accessor.Sights (moment.accessor.addressing.start heapBlock) := by
      intro anchored
      have anchored2 := (keeps2 rfl).anchored (a1 ▸ anchored)
      exact (keeps3 rfl).sights (addressing3.trans addressing2.symm) ((rest rfl).2.2.sights anchored2)
    have drift := (rest rfl).1
    rw [w1.scene_eq_of_solo] at drift
    exact ⟨⟨rebinds.after drift, clean⟩, sights⟩

/-- Inserting the summary of a range. -/
theorem insert_spec {may : Prop} (steady : Steady mode moment) (free : moment.held = [])
    (clean : mode = .solo → ∀ block, ¬ moment.scene.Loose block)
    (short : mode = .solo → payload.length + 4 ≤ maxTupleSize)
    (grants : may → mode.Grants (moment.contents.addressing.start heapBlock) (some payload))
    (fuel : mode = .solo → enoughRounds ≤ rounds) :
    Ensures mode (fun _ later => later.held = [] ∧ (may → Steady mode later) ∧
      later.accessor.addressing = moment.accessor.addressing ∧
      Binds later.scene.image later.contents (moment.contents.addressing.start heapBlock) payload ∧
      (mode = .solo → Settles moment (moment.contents.addressing.start heapBlock) (some payload) later ∧
        (moment.accessor.Anchored → later.accessor.Sights (moment.contents.addressing.start heapBlock))))
      (insert rounds heapBlock payload) moment :=
  insertWithin_spec steady free clean short grants fun solo =>
    ⟨fuel solo, Nat.le_trans (Addressing.roundsFor_le _ _) (fuel solo), Nat.le_trans (by decide) (fuel solo)⟩

end Binding

section Unbinding

variable {mode : Mode} {moment : Moment} {heapBlock : BlockNumber} {rounds : Nat}

/-- Under all locks, removing the tuple that the entry of a range points at. -/
theorem clear_spec {place : ItemPointer} {mapBlock : BlockNumber} {page mapPage : Page}
    (steady : Steady mode moment) (held : moment.held ≠ [])
    (start : moment.contents.addressing.IsStart heapBlock)
    (covered : Covers moment.scene.image moment.contents heapBlock mapBlock)
    (at_map : moment.scene.image.page? mapBlock = some mapPage) (map : MapPage mapPage)
    (at_page : moment.scene.image.page? place.block = some page) (regular : Regular page)
    (same : entryAt mapPage (moment.contents.addressing.slot heapBlock) = place)
    (valid : place.isValid = true) (grants : mode.Grants heapBlock none) :
    Ensures mode (fun done later => later.held = [] ∧ Steady mode later ∧
      (mode = .solo → done = true ∧ Rebinds moment.scene later.scene heapBlock none ∧
        ∀ block, later.scene.Loose block → moment.scene.Loose block))
      (do
        let accessor ← Procedure.accessor
        let taken ←
          if page.maxOffset < place.offset.toNat then pure false
          else LinePointer.isUsed <$> (liftM (page.pointer place.offset.toNat) : Procedure LinePointer)
        if !taken then Procedure.report (accessor.corrupted place.block "inconsistent range map")
        let mapPage ← setEntry mapPage (moment.contents.addressing.slot heapBlock) .invalid
        Procedure.write mapBlock mapPage
        let page ← page.deleteItem place.offset.toNat
        Procedure.write place.block page
        Procedure.markDirty place.block
        Procedure.markDirty mapBlock
        let addressing := accessor.addressing
        Procedure.logged
          (.desummarize addressing.pagesPerRange addressing.appendOnly heapBlock mapBlock place.block
            place.offset)
          [(mapBlock, mapPage), (place.block, page)]
        Procedure.releaseAll
        return true) moment := by
  have sound := steady.sound
  have bound := moment.contents.addressing.slot_lt heapBlock
  refine steady.accessor fun m1 w1 s1 a1 => ?_
  obtain ⟨scene1, -⟩ := w1.locked held
  have held1 : m1.held ≠ [] := by
    rw [w1.held_eq]
    exact held
  -- the entry points at the place, so that there is a tuple
  have points : entryIn moment.scene.image mapBlock (moment.contents.addressing.slot heapBlock) = some place :=
    entryIn_valid at_map map bound same valid
  obtain ⟨bytes, before, tuple, -⟩ :=
    sound.linked.binds_of_entry sound.shape.functional start covered points
  have tuple := (tupleAt_of_regular at_page regular).symm.trans tuple
  obtain ⟨-, high⟩ := regular.packed.offset_of_itemAt tuple
  have used : (page.pointerAt place.offset.toNat).isUsed = true := by
    rw [← regular.packed.isSome_itemAt, tuple]
    rfl
  rw [if_neg (Nat.not_lt.mpr high), regular.packed.pointer_eq, ensures_map_lift_ok, used]
  simp only [Bool.not_true, Bool.false_eq_true, if_false]
  rw [setEntry_eq mapPage bound, ensures_lift_ok]
  refine Ensures.write held1 ?_
  obtain ⟨page', removed, deleted⟩ := Page.deleteItem_spec regular.packed place.offset.toNat
  rw [removed, ensures_lift_ok]
  refine Ensures.write held1 (Ensures.markDirty held1 (Ensures.markDirty held1 ?_))
  have change : Change mode moment.scene moment.contents _ _ moment.contents :=
    .desummarize start covered at_page regular removed deleted at_map same valid
  rw [steady.knows.addressing_eq]
  refine Ensures.committed held1 (scene1 ▸ s1.evolves) sound change (.refl _) (by rw [← scene1]; rfl) ?_
  have step := Advance.commit sound change (grants.permits rfl)
  refine Ensures.locked held1 ⟨rfl, (s1.advance (by rw [scene1]; exact step)).lock [], ?_⟩
  rintro rfl
  exact ⟨rfl, ⟨_, _, _, _, .refl _ _, change, rfl, rfl⟩, fun block loose => (change.loose sound loose).1⟩

/-- Removing the summary that the entry of a range points at. -/
theorem unbind_spec {place : ItemPointer} (steady : Steady mode moment) (free : moment.held = [])
    (start : moment.contents.addressing.IsStart heapBlock) (valid : place.isValid = true)
    (present : mode = .solo → ∃ block, Covers moment.scene.image moment.contents heapBlock block ∧
      entryIn moment.scene.image block (moment.contents.addressing.slot heapBlock) = some place)
    (reaches : mode = .solo → moment.accessor.Reaches heapBlock) (grants : mode.Grants heapBlock none)
    (fuel : mode = .solo → enoughRounds ≤ rounds) :
    Ensures mode (fun done later => later.held = [] ∧ Steady mode later ∧
      (mode = .solo → done = true ∧ Rebinds moment.scene later.scene heapBlock none ∧
        ∀ block, later.scene.Loose block → moment.scene.Loose block))
      (unbind rounds heapBlock (moment.accessor.addressing.slot heapBlock) place) moment := by
  have addressing := steady.knows.addressing_eq
  have pointed : mode = .solo → ∃ page bytes, moment.scene.image.page? place.block = some page ∧
      isRegular page = true ∧ page.itemAt place.offset.toNat = some bytes := by
    intro solo
    obtain ⟨block, covered, entry⟩ := present solo
    obtain ⟨bytes, before, tuple, -⟩ :=
      steady.sound.linked.binds_of_entry steady.sound.shape.functional start covered entry
    obtain ⟨page, at', kind, item⟩ := tupleAt_eq_some tuple
    exact ⟨page, bytes, at', kind, item⟩
  simp only [unbind]
  refine steady.pin (fun solo => ?_) fun m1 w1 s1 a1 inside => ?_
  · obtain ⟨page, -, at', -⟩ := pointed solo
    exact Image.lt_of_page? at'
  refine s1.acquire (fun _ => ⟨inside, ?_⟩) fun m2 page w2 s2 a2 at2 _ => ?_
  · rw [w1.held_eq, free]
    exact List.not_mem_nil
  have waits := w1.trans w2
  have steady2 : Steady mode { m2 with held := place.block :: m2.held } := s2.lock _
  -- another operation has removed or moved the summary
  have abandon : ∀ {later : Moment}, later.held ≠ [] → Steady mode later → (mode = .solo → False) →
      Ensures mode (fun done later => later.held = [] ∧ Steady mode later ∧
        (mode = .solo → done = true ∧ Rebinds moment.scene later.scene heapBlock none ∧
          ∀ block, later.scene.Loose block → moment.scene.Loose block))
        (do Procedure.releaseAll; return false) later :=
    fun held steady others => Ensures.locked held ⟨rfl, steady.lock _, fun solo => (others solo).elim⟩
  by_cases kind : isRegular page = true
  · have regular := s2.sound.shape.regular_of at2 kind
    simp only [kind, Bool.not_true, Bool.false_eq_true, if_false]
    refine (lockPage_spec heapBlock steady2 (fun block mem => ?_) fuel fun solo => ?_).andThen ?_
    · rw [waits.held_eq.trans free] at mem
      obtain rfl := List.mem_singleton.mp mem
      exact ⟨page, at2, regular⟩
    · rw [show m2.accessor = _ from a2.trans a1]
      exact reaches solo
    rintro ⟨mapBlock, mapPage⟩ m3 locked
    have scene3 : m3.scene = m2.scene := (locked.locked (List.cons_ne_nil _ _)).1
    have held3 : m3.held ≠ [] := by
      rw [locked.held_eq]
      exact List.cons_ne_nil _ _
    have drift3 : Drift mode moment.scene m3.scene := by
      rw [scene3]
      exact .of_interferes waits.interferes
    have addressing3 : m3.contents.addressing = moment.accessor.addressing :=
      ((steady.grows_of_evolves drift3.evolves).2.addressing_eq).trans addressing.symm
    have start3 : m3.contents.addressing.IsStart heapBlock := by
      rw [addressing3, addressing]
      exact start
    have at3 : m3.scene.image.page? place.block = some page := by
      rw [scene3]
      exact at2
    have bound := moment.accessor.addressing.slot_lt heapBlock
    simp only
    rw [entry_eq mapPage bound, ensures_lift_ok]
    by_cases same : entryAt mapPage (moment.accessor.addressing.slot heapBlock) = place
    · rw [if_neg (not_not.mpr same)]
      have cleared := clear_spec locked.steady held3 start3 locked.covered locked.at_block locked.map at3 regular
        (by rw [addressing3]; exact same) valid grants
      rw [addressing3] at cleared
      refine cleared.mono ?_
      rintro done m4 ⟨free4, s4, alone⟩
      refine ⟨free4, s4, ?_⟩
      rintro rfl
      obtain ⟨rfl, rebinds, clean⟩ := alone rfl
      exact ⟨rfl, rebinds.after drift3, fun block loose => by
        have loose := clean block loose
        rwa [scene3, waits.scene_eq_of_solo] at loose⟩
    · rw [if_pos same]
      refine abandon held3 locked.steady ?_
      rintro rfl
      obtain ⟨block, covered, entry⟩ := present rfl
      have scene_eq : m3.scene = moment.scene := scene3.trans waits.scene_eq_of_solo
      have contents_eq : m3.contents = moment.contents := by rw [Moment.contents, scene_eq, Moment.contents]
      have covered3 := locked.covered
      rw [scene_eq, contents_eq] at covered3
      obtain rfl := steady.sound.shape.covers_unique covered covered3
      obtain ⟨page', at', -, -, -, eq⟩ := entryIn_eq_some entry
      have at_map := locked.at_block
      rw [scene_eq, at'] at at_map
      obtain rfl := Option.some.inj at_map
      rw [← addressing] at eq
      exact same eq
  · simp only [kind, Bool.not_false, if_true]
    refine abandon (List.cons_ne_nil _ _) steady2 ?_
    rintro rfl
    obtain ⟨page', bytes, at', kind', -⟩ := pointed rfl
    rw [waits.scene_eq_of_solo, at'] at at2
    exact kind (Option.some.inj at2 ▸ kind')

end Unbinding

section Opening

variable {mode : Mode} {moment : Moment} {heapBlock : BlockNumber} {rounds : Nat} {index : String}

/-- The index is sound and what was done since the last moment without locks is something that
operations do; the accessor may be one that has not opened the index. -/
structure Grounded (mode : Mode) (moment : Moment) : Prop where
  sound : Sound moment.scene.image moment.contents
  gapless : mode.Dense → Gapless moment.scene.image moment.contents
  evolves : Evolves mode moment.base moment.scene

/-- What others do leaves the moment grounded. -/
theorem Grounded.interfere (grounded : Grounded mode moment) {scene : Scene}
    (h : mode.Interferes moment.scene scene) : Grounded mode { moment with base := scene, scene } :=
  ⟨h.evolves.sound_contents grounded.sound, fun dense =>
    h.evolves.gapless grounded.sound (grounded.gapless dense) (Mode.dense_together.mpr dense), .refl⟩

/-- Nobody changes how blocks are mapped to entries. -/
theorem Grounded.addressing_eq (grounded : Grounded mode moment) {scene : Scene}
    (h : mode.Interferes moment.scene scene) : scene.image.contents.addressing = moment.contents.addressing := by
  obtain ⟨contents, sound, grows⟩ := h.evolves.sound grounded.sound
  rw [Steady.contents_of_sound sound]
  exact grows.addressing_eq

/-- An accessor that has just read the metapage knows nothing wrong. -/
theorem Geometry.knows {image : Image} {contents : Metapage} (shape : Geometry image contents) (index : String) :
    Knows image contents (.ofMetapage index contents) where
  addressing_eq := rfl
  last_le := UInt32.le_refl _
  chain chained sequence bound := by
    rcases shape.chain_ends chained bound with ⟨empty, -⟩ | ⟨⟨number, first, -⟩, last, -⟩
    · exact .inl empty
    · exact .inr ⟨rfl, shape.inChain_ne_invalid first, last⟩
  position _ _ eq := nomatch eq
  running := rfl

theorem Current.ofMetapage (index : String) (contents : Metapage) :
    Current contents (.ofMetapage index contents) :=
  ⟨rfl, rfl, fun _ eq => nomatch eq⟩

/-- Opening the index. -/
theorem openIndex_spec (grounded : Grounded mode moment) (free : moment.held = [])
    (new : mode = .solo → moment.accessor = .unopened) :
    Ensures mode (fun _ later => later.held = [] ∧ Steady mode later ∧
      later.contents.addressing = moment.contents.addressing ∧
      (mode = .solo → later.scene = moment.scene ∧ Current later.contents later.accessor))
      (openIndex index) moment := by
  simp only [openIndex]
  refine Ensures.unlocked free grounded.evolves fun first interferes => ?_
  have grounded1 := grounded.interfere interferes
  obtain ⟨page1, at1, -⟩ := grounded1.sound.holds
  simp only [Moment.Serves, at1]
  refine Ensures.unlocked free .refl fun second interferes' => ?_
  have grounded2 := grounded1.interfere interferes'
  obtain ⟨page2, at2, holds2⟩ := grounded2.sound.holds
  have none_held : moment.held.contains metaBlock = false := by
    rw [free]
    rfl
  simp only [Moment.Serves, Moment.Locks, none_held, Bool.false_eq_true, if_false, at2]
  rw [holds2 index metaBlock, ensures_lift_value]
  refine Ensures.unlocked free .refl fun third interferes'' => ?_
  have grounded3 := grounded2.interfere interferes''
  have knows : Knows second.image second.image.contents (.ofMetapage index second.image.contents) :=
    grounded2.sound.shape.knows index
  obtain ⟨contents, sound, grows⟩ := interferes''.evolves.sound grounded2.sound
  obtain rfl := Steady.contents_of_sound sound
  have addressing := grounded.addressing_eq ((interferes.trans interferes').trans interferes'')
  refine ⟨fun solo => new solo ▸ Accessor.keeps_opened index _, free,
    ⟨sound, knows.grow grows, grounded3.gapless, .refl⟩, addressing, ?_⟩
  rintro rfl
  obtain rfl : first = moment.scene := interferes
  obtain rfl : second = moment.scene := interferes'
  obtain rfl : third = moment.scene := interferes''
  exact ⟨rfl, .ofMetapage index _⟩

/-- Alone, an operation unbound a range, which may have had no payload before. -/
structure Clears (moment : Moment) (heapBlock : BlockNumber) (later : Moment) : Prop where
  rebinds : Rebinds moment.scene later.scene heapBlock none ∨
    later.scene = moment.scene ∧ ∀ payload, ¬ Binds moment.scene.image moment.contents heapBlock payload
  loose : ∀ block, later.scene.Loose block → moment.scene.Loose block

/-- Going to the start of a chain keeps the cache current. -/
theorem Current.toStart {later : Moment} {sequence : Nat} (looks : Looks .solo moment later)
    (current : Current moment.contents moment.accessor) (chained : moment.contents.appendOnly = true)
    (bound : sequence < sequenceCount) (at_sequence : later.accessor.position.sequence = some sequence)
    (place : (moment.accessor.chainOf sequence = .empty ∧ later.accessor.position.logical = 0) ∨
      InChain later.scene.image later.contents sequence later.accessor.position.page
        later.accessor.position.logical) : Current later.contents later.accessor := by
  have same := contents_solo looks.waits
  rw [same]
  refine current.cache looks.cache fun other eq zero => ?_
  obtain rfl := Option.some.inj (at_sequence.symm.trans eq)
  rcases place with ⟨empty, -⟩ | inside
  · rwa [current.chainOf_eq] at empty
  · have shape := looks.steady.sound.shape
    rw [same] at shape inside
    exact absurd zero (shape.inChain_ne_zero chained bound inside)

/-- Removing the summary of a range. -/
theorem desummarize_spec (grounded : Grounded mode moment) (free : moment.held = [])
    (new : mode = .solo → moment.accessor = .unopened)
    (grants : mode.Grants (moment.contents.addressing.start heapBlock) none)
    (fuel : mode = .solo → enoughRounds ≤ rounds) :
    Ensures mode (fun done later => later.held = [] ∧ Steady mode later ∧
      (mode = .solo → done = true ∧ Clears moment (moment.contents.addressing.start heapBlock) later))
      (desummarize rounds index heapBlock) moment := by
  simp only [desummarize]
  refine (openIndex_spec grounded free new).andThen ?_
  rintro - m1 ⟨free1, s1, same1, opened⟩
  refine s1.accessor fun m2 w2 s2 a2 => ?_
  have addressing := s1.knows.addressing_eq
  have valid : m1.accessor.addressing.Valid := by
    rw [addressing]
    exact s1.sound.shape.valid
  rw [Addressing.rangeStart_eq valid, ensures_lift_ok]
  generalize start_eq : m1.accessor.addressing.start heapBlock = first
  have range : moment.contents.addressing.start heapBlock = first := by rw [← start_eq, addressing, same1]
  have looks2 : Looks mode m1 m2 := .of_waits w2 s2 a2
  have current2 : mode = .solo → Current m2.contents m2.accessor := by
    rintro rfl
    rw [contents_solo w2, a2]
    exact (opened rfl).2
  -- from where the chain of the range is looked up
  have search : ∀ {next : Option BlockNumber → Procedure Bool}, next none = pure true →
      (∀ mapBlock, next (some mapBlock) = do
        let entryIndex ← m1.accessor.addressing.entryIndex first
        let place ← RangeMap.readEntry mapBlock entryIndex
        if place.isValid then unbind rounds first entryIndex place else return true) →
      ∀ {later : Moment}, Looks mode m1 later → (mode = .solo → Current later.contents later.accessor) →
      Ensures mode (fun done later => later.held = [] ∧ Steady mode later ∧
        (mode = .solo → done = true ∧ Clears moment (moment.contents.addressing.start heapBlock) later))
        (RangeMap.lookup rounds first >>= next) later := by
    intro next unmapped mapped m3 looks3 current3
    have free3 := looks3.waits.held_eq.trans free1
    have held3 := Moment.holdsRegular_of_free free3
    refine (lookup_spec first looks3.steady held3 fuel).andThen ?_
    rintro found m4 ⟨looks4, found4, none4, -⟩
    have looks4' := looks3.trans looks4
    have scene4 : mode = .solo → m4.scene = moment.scene := by
      rintro rfl
      rw [looks4'.waits.scene_eq_of_solo]
      exact (opened rfl).1
    have contents4 : mode = .solo → m4.contents = moment.contents := fun solo => by
      rw [Moment.contents, scene4 solo, Moment.contents]
    have free4 := looks4'.waits.held_eq.trans free1
    have start4 : m4.contents.addressing.IsStart first := by
      rw [s1.addressing_eq looks4'.waits, ← addressing, ← start_eq]
      exact Addressing.isStart_start valid _
    -- the range has no summary when its entry is not there or not valid
    have nothing : ∀ {later : Moment}, Looks mode m4 later → (mode = .solo →
        ∀ payload, ¬ Binds moment.scene.image moment.contents first payload) → later.held = [] ∧
        Steady mode later ∧ (mode = .solo → true = true ∧
          Clears moment (moment.contents.addressing.start heapBlock) later) := by
      intro later looks absent
      refine ⟨looks.waits.held_eq.trans free4, looks.steady, ?_⟩
      rintro rfl
      have same := looks.waits.scene_eq_of_solo.trans (scene4 rfl)
      rw [range]
      exact ⟨rfl, .inr ⟨same, absent rfl⟩, fun block loose => by rwa [same] at loose⟩
    cases found with
    | none =>
        rw [unmapped]
        refine nothing (.refl looks4.steady) ?_
        rintro rfl payload ⟨block, place, bytes, covered, -⟩
        rw [← contents4 rfl, ← scene4 rfl] at covered
        have covered3 := covers_solo looks4.waits covered
        rcases none4 rfl rfl with blind | absent
        · exact looks3.steady.not_covers_of_blind (current3 rfl) blind block covered3
        · exact absent block covered3
    | some mapBlock =>
        obtain ⟨covered, reaches⟩ := found4 mapBlock rfl
        rw [mapped, Addressing.entryIndex_eq valid, ensures_lift_ok]
        refine (readEntry_spec looks4.steady (Moment.holdsRegular_of_free free4) covered
          (Addressing.slot_lt _ _)).andThen ?_
        rintro place m5 ⟨looks5, position5, page, at5, map, entry⟩
        have looks5' := looks4'.trans looks5
        have covered5 := looks4.steady.covers looks5.waits covered
        have addressing5 : m5.contents.addressing = m1.accessor.addressing :=
          (s1.addressing_eq looks5'.waits).trans addressing.symm
        have cache5 : m5.accessor.addressing = m1.accessor.addressing := looks5'.cache.addressing_eq
        have bound := m1.accessor.addressing.slot_lt first
        cases valid_place : place.isValid with
        | true =>
            have unbound := unbind_spec looks5.steady (looks5'.waits.held_eq.trans free1)
              (by rw [addressing5, ← start_eq]; exact Addressing.isStart_start valid _) valid_place
              (fun _ => ⟨mapBlock, covered5, by
                rw [addressing5]
                exact entryIn_valid at5 map bound entry valid_place⟩)
              (fun _ => reaches.cache looks5.cache position5) (by rwa [range] at grants) fuel
            rw [cache5] at unbound
            refine unbound.mono ?_
            rintro done m6 ⟨free6, s6, cleared⟩
            refine ⟨free6, s6, ?_⟩
            rintro rfl
            obtain ⟨rfl, rebinds, loose⟩ := cleared rfl
            have same := looks5.waits.scene_eq_of_solo.trans (scene4 rfl)
            rw [same] at rebinds loose
            rw [range]
            exact ⟨rfl, .inl rebinds, loose⟩
        | false =>
            refine nothing looks5 ?_
            rintro rfl payload bound5
            have same := looks5.waits.scene_eq_of_solo.trans (scene4 rfl)
            have none5 : entryIn m5.scene.image mapBlock (m5.contents.addressing.slot first) = none := by
              rw [addressing5]
              exact entryIn_invalid at5 map bound (by rw [entry]; exact valid_place)
            rw [← contents4 rfl, ← contents_solo looks5.waits, ← same] at bound5
            exact looks5.steady.sound.unbound covered5 none5 payload bound5
  split
  · rename_i chained
    have kind : m2.contents.appendOnly = true :=
      (s1.kind_eq w2).trans ((congrArg Addressing.appendOnly addressing).symm.trans chained)
    refine (toStart_spec s2 (Moment.holdsRegular_of_free (w2.held_eq.trans free1)) kind
      (sequenceOf_lt first)).andThen ?_
    rintro - m3 ⟨looks3, at_sequence, place⟩
    refine search rfl (fun _ => rfl) (looks2.trans looks3) ?_
    rintro rfl
    exact Current.toStart looks3 (current2 rfl) kind (sequenceOf_lt first) at_sequence
      (place.imp_right fun inside => inside.2.2)
  · exact search rfl (fun _ => rfl) looks2 current2

end Opening

end Warehouse.RangeIndex
