import Warehouse.Proofs.RangeIndex.Runs
import Warehouse.RangeIndex.Session

/-! # Sequences of calls

A service is a relation with an index together with the accessors that were opened on it. Its
users call operations one after the other, through any accessor. A ledger is what the calls
should come to: a finite map from the starts of ranges to payloads, and which accessors were
opened after the last call that may write. `Sane.perform` says that every call of a service
does what its ledger says, whatever calls came before. -/

namespace Warehouse.RangeIndex

/-! ## Services -/

/-- What a user does with an accessor. -/
inductive Use where
  | insert (heapBlock : BlockNumber) (payload : List UInt8)
  | ensure (heapBlock : BlockNumber)
  | find (heapBlock : BlockNumber)

/-- A complete call. Removing a summary needs no accessor. -/
inductive Call where
  | openAccessor
  | use (number : Nat) (use : Use)
  | desummarize (heapBlock : BlockNumber)

/-- The result of a call. -/
inductive Answer where
  | opened
  | placed (place : ItemPointer)
  | reached (block : BlockNumber)
  | found (summary : Option FoundSummary)
  | removed (done : Bool)

/-- The operation that a use of an accessor stands for. -/
def Use.procedure : Use → Procedure Answer
  | .insert heapBlock payload => do return .placed (← RangeIndex.insert Session.rounds heapBlock payload)
  | .ensure heapBlock => do return .reached (← Coverage.ensure Session.rounds heapBlock)
  | .find heapBlock => do return .found (← RangeMap.find Session.rounds heapBlock)

/-- A relation with an index, its log file, and the accessors in the order in which they were
opened. -/
structure Service where
  relation : Relation
  logFile : ByteArray
  accessors : List Accessor

namespace Service

/-- What an operation acts on when it is called. -/
def world (service : Service) (accessor : Accessor) : World :=
  ⟨service.relation, service.logFile, accessor, []⟩

/-- Create an index in a relation. -/
def create (relation : Relation) (logFile : ByteArray) (pagesPerRange : UInt32) (appendOnly : Bool) :
    Except Failure Service :=
  match (RangeIndex.create relation.name pagesPerRange appendOnly).run ⟨relation, logFile, .unopened, []⟩ with
  | (.ok (), world) => .ok ⟨world.relation, world.logFile, []⟩
  | (.error failure, _) => .error failure

/-- Make a call. There is no outcome when nobody has opened the accessor of the call. -/
def perform (service : Service) : Call → Option (Except Failure Answer) × Service
  | .openAccessor =>
      match (openIndex service.relation.name).run (service.world .unopened) with
      | (.ok (), world) =>
          (some (.ok .opened), ⟨world.relation, world.logFile, service.accessors ++ [world.accessor]⟩)
      | (.error failure, world) => (some (.error failure), ⟨world.relation, world.logFile, service.accessors⟩)
  | .use number use =>
      match service.accessors[number]? with
      | none => (none, service)
      | some accessor =>
          let (outcome, world) := use.procedure.run (service.world accessor)
          (some outcome, ⟨world.relation, world.logFile, service.accessors.set number world.accessor⟩)
  | .desummarize heapBlock =>
      let (outcome, world) :=
        (RangeIndex.desummarize Session.rounds service.relation.name heapBlock).run (service.world .unopened)
      (some (.removed <$> outcome), ⟨world.relation, world.logFile, service.accessors⟩)

/-- The service after calls. -/
def run (service : Service) (calls : List Call) : Service :=
  calls.foldl (fun service call => (service.perform call).2) service

/-- The number of pages. -/
def size (service : Service) : Nat := service.relation.buffers.size

/-- The index binds the range that starts at a table block to a payload. -/
def Binds (service : Service) (heapBlock : BlockNumber) (payload : List UInt8) : Prop :=
  RangeIndex.Binds (pagesOf service.relation) (pagesOf service.relation).contents heapBlock payload

end Service

/-! ## Ledgers -/

/-- What the payloads of ranges should be, and for every accessor whether it was opened after
the last call that may write. -/
structure Ledger where
  bindings : BlockNumber → Option (List UInt8)
  current : List Bool

namespace Ledger

/-- The ledger of a new index. -/
def empty : Ledger := ⟨fun _ => none, []⟩

/-- No accessor was opened after the last call that may write. -/
def outdated (ledger : Ledger) : Ledger :=
  { ledger with current := ledger.current.map fun _ => false }

/-- The range that starts at a table block has a new payload or none. -/
def rebound (ledger : Ledger) (heapBlock : BlockNumber) (new : Option (List UInt8)) : Ledger :=
  { ledger.outdated with bindings := fun other => if other = heapBlock then new else ledger.bindings other }

/-- What using an accessor should come to. A summary that no page has room for is refused. -/
def used (addressing : Addressing) (ledger : Ledger) : Use → Ledger
  | .insert heapBlock payload =>
      if payload.length + 4 ≤ maxTupleSize then ledger.rebound (addressing.start heapBlock) (some payload)
      else ledger
  | .ensure _ => ledger.outdated
  | .find _ => ledger

/-- What a call should come to. -/
def after (addressing : Addressing) (ledger : Ledger) : Call → Ledger
  | .openAccessor => { ledger with current := ledger.current ++ [true] }
  | .use number use => if number < ledger.current.length then ledger.used addressing use else ledger
  | .desummarize heapBlock => ledger.rebound (addressing.start heapBlock) none

/-- What the outcome of using an accessor should be. Only a current accessor has to find the
summary of a range. -/
def AcceptsUse (addressing : Addressing) (ledger : Ledger) (current : Bool) :
    Use → Except Failure Answer → Prop
  | .insert _ payload, outcome =>
      if payload.length + 4 ≤ maxTupleSize then ∃ place, outcome = .ok (.placed place)
      else outcome = .error (.error (.pageFull invalidBlock))
  | .ensure _, outcome => ∃ block, outcome = .ok (.reached block)
  | .find heapBlock, outcome => ∃ found, outcome = .ok (.found found) ∧ (current = true →
      found.map FoundSummary.summary =
        (ledger.bindings (addressing.start heapBlock)).map (Summary.mk (addressing.start heapBlock)))

/-- What the outcome of a call should be. -/
def Accepts (addressing : Addressing) (ledger : Ledger) : Call → Option (Except Failure Answer) → Prop
  | .openAccessor, outcome => outcome = some (.ok .opened)
  | .use number use, outcome =>
      match ledger.current[number]? with
      | none => outcome = none
      | some current => ∃ result, outcome = some result ∧ ledger.AcceptsUse addressing current use result
  | .desummarize _, outcome => outcome = some (.ok (.removed true))

end Ledger

/-! ## What uses of an accessor do -/

/-- The use does not ask for a summary to be stored that no page has room for. -/
def Use.Fits : Use → Prop
  | .insert _ payload => payload.length + 4 ≤ maxTupleSize
  | _ => True

/-- What a use of an accessor comes to when nobody else acts. -/
def Use.Did (moment : Moment) (answer : Answer) (later : Moment) : Use → Prop
  | .insert heapBlock payload => (∃ place, answer = .placed place) ∧
      Settles moment (moment.contents.addressing.start heapBlock) (some payload) later ∧
      (moment.accessor.Anchored → later.accessor.Sights (moment.contents.addressing.start heapBlock))
  | .ensure heapBlock => (∃ block, answer = .reached block) ∧ Drift .solo moment.scene later.scene ∧
      (∀ block, ¬ later.scene.Loose block) ∧ later.accessor.Reaches heapBlock
  | .find heapBlock => ∃ found, answer = .found found ∧ later.scene = moment.scene ∧
      (Current moment.contents moment.accessor → Current later.contents later.accessor) ∧
      (moment.accessor.Blind heapBlock ∧ found = none ∨
        Finding moment (moment.contents.addressing.start heapBlock) found)

theorem enoughRounds_le : enoughRounds ≤ Session.rounds := by decide

/-- An operation that is alone needs no rights. -/
theorem Mode.grants_solo (heapBlock : BlockNumber) (new : Option (List UInt8)) : Mode.solo.Grants heapBlock new :=
  fun _ _ shared => nomatch shared

/-- The contract of a use of an accessor. -/
theorem use_spec {moment : Moment} (use : Use) (steady : Steady .solo moment) (free : moment.held = [])
    (clean : ∀ block, ¬ moment.scene.Loose block) (fits : use.Fits) :
    Ensures .solo (fun answer later => later.held = [] ∧ Steady .solo later ∧ use.Did moment answer later)
      use.procedure moment := by
  cases use with
  | insert heapBlock payload =>
      refine (insert_spec steady free (fun _ => clean) (fun _ => fits) (fun (_ : True) => Mode.grants_solo _ _)
        fun _ => enoughRounds_le).andThen ?_
      rintro place later ⟨free', steady', -, -, settles⟩
      exact ⟨free', steady' trivial, ⟨place, rfl⟩, settles rfl⟩
  | ensure heapBlock =>
      refine (ensure_spec steady free (fun _ => clean) fun _ => enoughRounds_le).andThen ?_
      rintro block later ⟨free', steady', -, -, ensured⟩
      exact ⟨free', steady', ⟨block, rfl⟩, ensured rfl⟩
  | find heapBlock =>
      refine (find_spec steady free fun _ => enoughRounds_le).andThen ?_
      rintro found later ⟨looks, -, alone⟩
      exact ⟨looks.waits.held_eq.trans free, looks.steady, found, rfl, looks.waits.scene_eq_of_solo, (alone rfl).2⟩

/-! ## The invariant -/

/-- What an operation that runs alone does to a scene: it changes no binding, or it rebinds one
range. -/
def Conducts (scene after : Scene) : Prop :=
  Drift .solo scene after ∨ ∃ heapBlock new, Rebinds scene after heapBlock new

/-- Between calls the index is sound, its log knows all its pages, and no accessor knows
anything wrong. -/
structure Sane (service : Service) (scene : Scene) (addressing : Addressing) (ledger : Ledger)
    (telling : Telling := .frames) : Prop where
  shows : Shows service.relation service.logFile scene telling
  sound : Sound scene.image scene.image.contents
  gapless : Gapless scene.image scene.image.contents
  clean : ∀ block, ¬ scene.Loose block
  addressing_eq : scene.image.contents.addressing = addressing
  binds : ∀ heapBlock payload, Binds scene.image scene.image.contents heapBlock payload ↔
    ledger.bindings heapBlock = some payload
  knows : ∀ accessor ∈ service.accessors, Knows scene.image scene.image.contents accessor
  count : service.accessors.length = ledger.current.length
  current : ∀ (number : Nat) (accessor : Accessor), service.accessors[number]? = some accessor →
    ledger.current[number]? = some true → Current scene.image.contents accessor

theorem Rebinds.evolves {scene after : Scene} {heapBlock : BlockNumber} {new : Option (List UInt8)}
    (rebinds : Rebinds scene after heapBlock new) (sound : Sound scene.image scene.image.contents) :
    Evolves .solo scene after := by
  obtain ⟨middle, record, pages, contents, drift, change, rfl, -⟩ := rebinds
  exact drift.evolves.tail (.commit (drift.sound sound) change trivial)

theorem Conducts.evolves {scene after : Scene} (conducts : Conducts scene after)
    (sound : Sound scene.image scene.image.contents) : Evolves .solo scene after := by
  rcases conducts with drift | ⟨heapBlock, new, rebinds⟩
  · exact drift.evolves
  · exact rebinds.evolves sound

namespace Sane

variable {service : Service} {scene : Scene} {addressing : Addressing} {ledger : Ledger} {accessor : Accessor}
  {telling : Telling}

theorem valid (sane : Sane service scene addressing ledger telling) : addressing.Valid := by
  rw [← sane.addressing_eq]
  exact sane.sound.shape.valid

/-- The moment at which an accessor is used. -/
theorem steady (sane : Sane service scene addressing ledger telling) (mem : accessor ∈ service.accessors) :
    Steady .solo ⟨scene, scene, accessor, []⟩ :=
  ⟨sane.sound, sane.knows accessor mem, fun _ => sane.gapless, .refl⟩

theorem grounded (sane : Sane service scene addressing ledger telling) (accessor : Accessor) :
    Grounded .solo ⟨scene, scene, accessor, []⟩ :=
  ⟨sane.sound, fun _ => sane.gapless, .refl⟩

theorem models (sane : Sane service scene addressing ledger telling) (accessor : Accessor) :
    Models (service.world accessor) ⟨scene, scene, accessor, []⟩ telling :=
  ⟨sane.shows, rfl, rfl⟩

theorem addressing_of_evolves (sane : Sane service scene addressing ledger telling) {scene' : Scene}
    (evolves : Evolves .solo scene scene') : scene'.image.contents.addressing = addressing := by
  obtain ⟨contents, sound, grows⟩ := evolves.sound sane.sound
  rw [Image.contents_eq sound.holds, grows.addressing_eq, sane.addressing_eq]

/-- What an accessor knew it still knows later. -/
theorem knows_of_evolves (sane : Sane service scene addressing ledger telling) {scene' : Scene}
    (evolves : Evolves .solo scene scene') (mem : accessor ∈ service.accessors) :
    Knows scene'.image scene'.image.contents accessor := by
  obtain ⟨contents, sound, grows⟩ := evolves.sound sane.sound
  rw [Image.contents_eq sound.holds]
  exact (sane.knows accessor mem).grow grows

/-- After an operation that ends at a steady moment, the service is sane again. -/
theorem next (sane : Sane service scene addressing ledger telling) {world : World} {later : Moment}
    {accessors : List Accessor}
    {ledger' : Ledger} (models : Models world later telling) (steady : Steady .solo later)
    (evolves : Evolves .solo scene later.scene) (clean : ∀ block, ¬ later.scene.Loose block)
    (binds : ∀ heapBlock payload, RangeIndex.Binds later.scene.image later.scene.image.contents heapBlock payload ↔
      ledger'.bindings heapBlock = some payload)
    (known : ∀ accessor ∈ accessors, accessor ∈ service.accessors ∨
      Knows later.scene.image later.scene.image.contents accessor)
    (count : accessors.length = ledger'.current.length)
    (current : ∀ (number : Nat) (accessor : Accessor), accessors[number]? = some accessor →
      ledger'.current[number]? = some true → Current later.scene.image.contents accessor) :
    Sane ⟨world.relation, world.logFile, accessors⟩ later.scene addressing ledger' telling where
  shows := models.shows
  sound := steady.sound
  gapless := steady.gapless trivial
  clean := clean
  addressing_eq := sane.addressing_of_evolves evolves
  binds := binds
  knows accessor mem := (known accessor mem).elim (sane.knows_of_evolves evolves) id
  count := count
  current := current

/-- After a call that may write, no accessor needs to be current. -/
theorem outdate (sane : Sane service scene addressing ledger telling) {world : World} {later : Moment}
    {accessors : List Accessor} {ledger' : Ledger} (models : Models world later telling) (steady : Steady .solo later)
    (evolves : Evolves .solo scene later.scene) (clean : ∀ block, ¬ later.scene.Loose block)
    (binds : ∀ heapBlock payload, RangeIndex.Binds later.scene.image later.scene.image.contents heapBlock payload ↔
      ledger'.bindings heapBlock = some payload)
    (known : ∀ accessor ∈ accessors, accessor ∈ service.accessors ∨
      Knows later.scene.image later.scene.image.contents accessor)
    (count : accessors.length = service.accessors.length) (outdated : ledger'.current = ledger.outdated.current) :
    Sane ⟨world.relation, world.logFile, accessors⟩ later.scene addressing ledger' telling := by
  refine sane.next models steady evolves clean binds known ?_ fun number accessor _ marked => ?_
  · rw [count, sane.count, outdated, Ledger.outdated, List.length_map]
  · rw [outdated, Ledger.outdated, List.getElem?_map] at marked
    obtain ⟨-, -, eq⟩ := Option.map_eq_some_iff.mp marked
    cases eq

/-- The range that an operation rebound is rebound in the ledger. -/
theorem binds_rebound (sane : Sane service scene addressing ledger telling) {scene' : Scene} {heapBlock : BlockNumber}
    {new : Option (List UInt8)} (rebinds : Rebinds scene scene' heapBlock new) (other : BlockNumber)
    (payload : List UInt8) : RangeIndex.Binds scene'.image scene'.image.contents other payload ↔
      (ledger.rebound heapBlock new).bindings other = some payload := by
  rw [rebinds.binds sane.sound, Ledger.rebound]
  simp only
  split
  · rfl
  · exact sane.binds other payload

/-- An operation on the way to its own change leaves the bindings in the ledger. -/
theorem binds_drift (sane : Sane service scene addressing ledger telling) {scene' : Scene}
    (drift : Drift .solo scene scene')
    (other : BlockNumber) (payload : List UInt8) :
    RangeIndex.Binds scene'.image scene'.image.contents other payload ↔ ledger.bindings other = some payload :=
  (drift.neutral other payload).trans (sane.binds other payload)

/-- Opening the index reads its metapage and changes nothing. -/
theorem run_openIndex (sane : Sane service scene addressing ledger telling) (index : String) :
    (openIndex index).run (service.world .unopened) =
      (.ok (), service.world (.ofMetapage index scene.image.contents)) := by
  obtain ⟨page, at_meta, holds⟩ := sane.sound.holds
  have found : service.relation.page? metaBlock = some page := by
    rw [← page?_pagesOf, sane.shows.pages, at_meta]
  have pinned : (service.world .unopened).perform (.pin metaBlock) = (.ok (), service.world .unopened) := by
    simp only [World.perform, Service.world, read_alone sane.shows.alone, sane.shows.pages, at_meta]
  have viewed : (service.world .unopened).perform (.view metaBlock) = (.ok page, service.world .unopened) := by
    simp only [World.perform, World.locking, Service.world, List.contains_nil, Bool.false_eq_true, if_false, found]
    rfl
  change (Procedure.ask (.pin metaBlock) _).run _ = _
  rw [Procedure.run, pinned]
  change (Procedure.ask (.view metaBlock) _).run _ = _
  rw [Procedure.run, viewed]
  change Procedure.run (liftM (Metapage.read page index metaBlock) >>= _) _ = _
  rw [holds]
  rfl

theorem perform_openAccessor (sane : Sane service scene addressing ledger telling) :
    service.perform .openAccessor = (some (.ok .opened), ⟨service.relation, service.logFile,
      service.accessors ++ [.ofMetapage service.relation.name scene.image.contents]⟩) := by
  rw [Service.perform, sane.run_openIndex]
  rfl

/-- Opening an accessor. -/
theorem perform_open (sane : Sane service scene addressing ledger telling)
    (room : (service.perform .openAccessor).2.size < 2 ^ 32) :
    ledger.Accepts addressing .openAccessor (service.perform .openAccessor).1 ∧
      ∃ scene', Conducts scene scene' ∧
        Sane (service.perform .openAccessor).2 scene' addressing (ledger.after addressing .openAccessor)
          telling := by
  have ensures : Ensures .solo _ (openIndex service.relation.name) _ :=
    openIndex_spec (sane.grounded .unopened) rfl fun _ => rfl
  have run := ensures.run (sane.models .unopened)
  rw [Service.perform] at room ⊢
  cases performed : (openIndex service.relation.name).run (service.world .unopened) with
  | mk outcome world =>
      rw [performed] at room run
      have small : world.relation.buffers.size < 2 ^ 32 := by
        cases outcome with
        | ok value => exact room
        | error failure => exact room
      obtain ⟨⟨⟩, later, rfl, models, -, steady, -, opened⟩ := run small
      obtain ⟨same, current⟩ := opened rfl
      refine ⟨rfl, later.scene, .inl (same ▸ .refl _ _), ?_⟩
      refine sane.next models steady (same ▸ .refl) (same ▸ sane.clean) (same ▸ sane.binds) (fun accessor mem => ?_) ?_
        fun number accessor at_number marked => ?_
      · rcases List.mem_append.mp mem with old | new
        · exact .inl old
        · obtain rfl := List.mem_singleton.mp new
          rw [models.accessor]
          exact .inr steady.knows
      · simp only [List.length_append, List.length_singleton, Ledger.after, sane.count]
      · by_cases old : number < service.accessors.length
        · rw [List.getElem?_append_left old] at at_number
          rw [Ledger.after, List.getElem?_append_left (by rw [← sane.count]; exact old)] at marked
          rw [same]
          exact sane.current number accessor at_number marked
        · rw [List.getElem?_append_right (Nat.not_lt.mp old)] at at_number
          obtain rfl := List.mem_singleton.mp (List.mem_of_getElem? at_number)
          rw [models.accessor]
          exact current

/-- The accessors after one of them was used. -/
theorem known_set {image : Image} {contents : Metapage} {accessors : List Accessor} {number : Nat}
    (knows : Knows image contents accessor) :
    ∀ other ∈ accessors.set number accessor, other ∈ accessors ∨ Knows image contents other := by
  intro other mem
  rcases List.mem_or_eq_of_mem_set mem with old | rfl
  · exact .inl old
  · exact .inr knows

/-- A range that the index does not bind is not in the ledger. -/
theorem bindings_eq_none (sane : Sane service scene addressing ledger telling) {heapBlock : BlockNumber}
    (absent : ∀ payload, ¬ RangeIndex.Binds scene.image scene.image.contents heapBlock payload) :
    ledger.bindings heapBlock = none :=
  Option.eq_none_iff_forall_ne_some.mpr fun payload eq => absent payload ((sane.binds _ _).mpr eq)

/-- What an accessor finds that has looked at the entry is what the ledger says. -/
theorem finding_eq (sane : Sane service scene addressing ledger telling) {heapBlock : BlockNumber}
    {found : Option FoundSummary} (finding : Finding ⟨scene, scene, accessor, []⟩ heapBlock found) :
    found.map FoundSummary.summary = (ledger.bindings heapBlock).map (Summary.mk heapBlock) := by
  obtain ⟨present, absent⟩ := finding
  cases found with
  | none => rw [sane.bindings_eq_none (absent rfl), Option.map_none, Option.map_none]
  | some summary =>
      obtain ⟨start, binds, -⟩ := present summary rfl
      rw [(sane.binds _ _).mp binds, Option.map_some, Option.map_some, ← start]

/-- What a current accessor finds is what the ledger says. -/
theorem found_eq (sane : Sane service scene addressing ledger telling) {heapBlock : BlockNumber}
    {found : Option FoundSummary}
    (mem : accessor ∈ service.accessors) (current : Current scene.image.contents accessor)
    (finding : accessor.Blind heapBlock ∧ found = none ∨
      Finding ⟨scene, scene, accessor, []⟩ (addressing.start heapBlock) found) :
    found.map FoundSummary.summary =
      (ledger.bindings (addressing.start heapBlock)).map (Summary.mk (addressing.start heapBlock)) := by
  rcases finding with ⟨blind, rfl⟩ | finding
  · have steady := sane.steady mem
    have addressing_eq : accessor.addressing = addressing := steady.knows.addressing_eq.trans sane.addressing_eq
    have blind := (Accessor.blind_start (addressing_eq ▸ sane.valid)).mpr blind
    rw [addressing_eq] at blind
    rw [sane.bindings_eq_none, Option.map_none, Option.map_none]
    rintro payload ⟨block, -, -, covered, -⟩
    exact steady.not_covers_of_blind current blind block covered
  · exact sane.finding_eq finding

/-- Using an accessor, except for inserting a summary that no page has room for. -/
theorem perform_use (sane : Sane service scene addressing ledger telling) {number : Nat} {use : Use}
    (at_number : service.accessors[number]? = some accessor) (fits : use.Fits)
    (room : (use.procedure.run (service.world accessor)).2.relation.buffers.size < 2 ^ 32) :
    (∀ current, (current = true → Current scene.image.contents accessor) →
      ledger.AcceptsUse addressing current use (use.procedure.run (service.world accessor)).1) ∧
      ∃ scene', Conducts scene scene' ∧
        Sane ⟨(use.procedure.run (service.world accessor)).2.relation,
          (use.procedure.run (service.world accessor)).2.logFile,
          service.accessors.set number (use.procedure.run (service.world accessor)).2.accessor⟩ scene' addressing
          (ledger.used addressing use) telling := by
  have mem := List.mem_of_getElem? at_number
  have contract := use_spec use (sane.steady mem) rfl sane.clean fits
  obtain ⟨answer, later, outcome, models, -, steady, did⟩ := contract.run (sane.models accessor) room
  rw [outcome]
  have known : ∀ other ∈ service.accessors.set number (use.procedure.run (service.world accessor)).2.accessor, _ :=
    known_set (models.accessor ▸ steady.knows)
  have count : (service.accessors.set number (use.procedure.run (service.world accessor)).2.accessor).length =
      service.accessors.length := List.length_set
  have start : (Moment.mk scene scene accessor []).contents.addressing = addressing := sane.addressing_eq
  cases use with
  | insert heapBlock payload =>
      have fits : payload.length + 4 ≤ maxTupleSize := fits
      obtain ⟨⟨place, rfl⟩, ⟨rebinds, clean⟩, -⟩ := did
      rw [start] at rebinds
      refine ⟨fun _ _ => ?_, later.scene, .inr ⟨_, _, rebinds⟩, ?_⟩
      · rw [Ledger.AcceptsUse, if_pos fits]
        exact ⟨place, rfl⟩
      · rw [Ledger.used, if_pos fits]
        exact sane.outdate models steady (rebinds.evolves sane.sound) clean (sane.binds_rebound rebinds) known count rfl
  | ensure heapBlock =>
      obtain ⟨⟨block, rfl⟩, drift, clean, -⟩ := did
      refine ⟨fun _ _ => ⟨block, rfl⟩, later.scene, .inl drift, ?_⟩
      exact sane.outdate models steady drift.evolves clean (sane.binds_drift drift) known count rfl
  | find heapBlock =>
      obtain ⟨found, rfl, same, current, finding⟩ := did
      rw [start] at finding
      refine ⟨fun marked now => ⟨found, rfl, fun yes => sane.found_eq mem (now yes) finding⟩, later.scene,
        .inl (same ▸ .refl _ _), ?_⟩
      refine sane.next models steady (same ▸ .refl) (same ▸ sane.clean) (same ▸ sane.binds) known
        (count.trans sane.count) fun other accessor' at_other marked => ?_
      by_cases here : other = number
      · subst here
        rw [List.getElem?_set_self (List.getElem?_eq_some_iff.mp at_number).1] at at_other
        obtain rfl := Option.some.inj at_other
        rw [models.accessor]
        exact current (sane.current other accessor at_number marked)
      · rw [List.getElem?_set_ne (Ne.symm here)] at at_other
        rw [same]
        exact sane.current other accessor' at_other marked

/-- Removing the summary of a range. -/
theorem perform_desummarize (sane : Sane service scene addressing ledger telling) {heapBlock : BlockNumber}
    (room : (service.perform (.desummarize heapBlock)).2.size < 2 ^ 32) :
    ledger.Accepts addressing (.desummarize heapBlock) (service.perform (.desummarize heapBlock)).1 ∧
      ∃ scene', Conducts scene scene' ∧ Sane (service.perform (.desummarize heapBlock)).2 scene' addressing
        (ledger.after addressing (.desummarize heapBlock)) telling := by
  have contract : Ensures .solo _ (desummarize Session.rounds service.relation.name heapBlock) _ :=
    desummarize_spec (sane.grounded .unopened) rfl (fun _ => rfl) (Mode.grants_solo _ _) fun _ => enoughRounds_le
  obtain ⟨done, later, outcome, models, -, steady, cleared⟩ := contract.run (sane.models .unopened) room
  obtain ⟨rfl, rebinds, loose⟩ := cleared rfl
  have start : (Moment.mk scene scene .unopened []).contents.addressing = addressing := sane.addressing_eq
  rw [start] at rebinds
  rw [Service.perform]
  simp only [outcome]
  refine ⟨rfl, later.scene, ?_⟩
  have clean : ∀ block, ¬ later.scene.Loose block := fun block h => sane.clean block (loose block h)
  rcases rebinds with rebinds | ⟨same, unbound⟩
  · refine ⟨.inr ⟨_, _, rebinds⟩, ?_⟩
    exact sane.outdate models steady (rebinds.evolves sane.sound) clean (sane.binds_rebound rebinds)
      (fun _ mem => .inl mem) rfl rfl
  · -- the range had no summary before
    refine ⟨.inl (same ▸ .refl _ _), ?_⟩
    refine sane.outdate models steady (same ▸ .refl) clean (fun other payload => ?_) (fun _ mem => .inl mem) rfl rfl
    have same : later.scene = scene := same
    rw [same, sane.binds, Ledger.after, Ledger.rebound]
    simp only
    split
    · rename_i eq
      subst eq
      refine ⟨fun bound => absurd ((sane.binds _ _).mpr bound) (unbound payload), fun none => nomatch none⟩
    · rfl

end Sane

/-- A summary that no page has room for is refused, and nothing changes. -/
theorem insert_long {rounds : Nat} {heapBlock : BlockNumber} {payload : List UInt8} {world : World}
    (valid : world.accessor.addressing.Valid) (long : ¬ payload.length + 4 ≤ maxTupleSize) :
    (insert rounds heapBlock payload).run world = (.error (.error (.pageFull invalidBlock)), world) := by
  have refused : maxTupleSize < (Summary.encode ⟨world.accessor.addressing.start heapBlock, payload⟩).length := by
    rw [Summary.length_encode]
    exact Nat.not_le.mp long
  simp only [insert]
  change Procedure.run (liftM (world.accessor.addressing.rangeStart heapBlock) >>= _) world = _
  rw [Addressing.rangeStart_eq valid]
  change Procedure.run (if maxTupleSize < (Summary.encode ⟨_, payload⟩).length then _ else _) world = _
  rw [if_pos refused]
  rfl

theorem run_insert_long {heapBlock : BlockNumber} {payload : List UInt8} {world : World}
    (valid : world.accessor.addressing.Valid) (long : ¬ payload.length + 4 ≤ maxTupleSize) :
    (Use.insert heapBlock payload).procedure.run world = (.error (.error (.pageFull invalidBlock)), world) := by
  change Procedure.run (Procedure.bind _ _) _ = _
  rw [Procedure.run_bind, insert_long valid long]

/-- A call that stores a summary that no page has room for changes nothing. -/
theorem Sane.run_refused {service : Service} {scene : Scene} {addressing : Addressing} {ledger : Ledger}
    {telling : Telling} {accessor : Accessor} {heapBlock : BlockNumber} {payload : List UInt8}
    (sane : Sane service scene addressing ledger telling) (mem : accessor ∈ service.accessors)
    (long : ¬ payload.length + 4 ≤ maxTupleSize) :
    (Use.insert heapBlock payload).procedure.run (service.world accessor) =
      (.error (.error (.pageFull invalidBlock)), service.world accessor) := by
  have valid : (service.world accessor).accessor.addressing.Valid := by
    rw [Service.world, (sane.knows accessor mem).addressing_eq, sane.addressing_eq]
    exact sane.valid
  exact run_insert_long valid long

/-- Every call does what the ledger says and leaves the service sane. -/
theorem Sane.perform {service : Service} {scene : Scene} {addressing : Addressing} {ledger : Ledger}
    {telling : Telling} (sane : Sane service scene addressing ledger telling)
    (call : Call) (room : (service.perform call).2.size < 2 ^ 32) :
    ledger.Accepts addressing call (service.perform call).1 ∧ ∃ scene', Conducts scene scene' ∧
      Sane (service.perform call).2 scene' addressing (ledger.after addressing call) telling := by
  cases call with
  | openAccessor => exact sane.perform_open room
  | desummarize heapBlock => exact sane.perform_desummarize room
  | use number use =>
      rw [Service.perform] at room ⊢
      rw [Ledger.Accepts, Ledger.after]
      cases at_number : service.accessors[number]? with
      | none =>
          have outside : ¬ number < ledger.current.length := by
            rw [← sane.count]
            exact Nat.not_lt.mpr (List.getElem?_eq_none_iff.mp at_number)
          rw [List.getElem?_eq_none (Nat.not_lt.mp outside), if_neg outside]
          exact ⟨rfl, scene, .inl (.refl _ _), sane⟩
      | some accessor =>
          rw [at_number] at room
          have inside : number < ledger.current.length := by
            rw [← sane.count]
            exact (List.getElem?_eq_some_iff.mp at_number).1
          rw [List.getElem?_eq_getElem inside, if_pos inside]
          by_cases fits : use.Fits
          · obtain ⟨accepts, scene', conducts, sane'⟩ := sane.perform_use at_number fits room
            refine ⟨⟨_, rfl, accepts _ fun marked => ?_⟩, scene', conducts, sane'⟩
            refine sane.current number accessor at_number ?_
            rw [List.getElem?_eq_getElem inside, marked]
          · cases use with
            | insert heapBlock payload =>
                have long : ¬ payload.length + 4 ≤ maxTupleSize := fits
                have outcome : (Use.insert heapBlock payload).procedure.run (service.world accessor) = _ :=
                  sane.run_refused (List.mem_of_getElem? at_number) long
                refine ⟨⟨_, rfl, ?_⟩, scene, .inl (.refl _ _), ?_⟩
                · rw [outcome, Ledger.AcceptsUse, if_neg long]
                · simp only [outcome]
                  rw [Ledger.used, if_neg long]
                  have same : service.accessors.set number (service.world accessor).accessor = service.accessors := by
                    obtain ⟨inside, rfl⟩ := List.getElem?_eq_some_iff.mp at_number
                    exact List.set_getElem_self inside
                  rw [same]
                  exact sane
            | ensure heapBlock => exact absurd trivial fits
            | find heapBlock => exact absurd trivial fits

end Warehouse.RangeIndex
