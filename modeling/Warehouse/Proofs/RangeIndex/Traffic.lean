import Warehouse.Proofs.RangeIndex.Attempts
import Warehouse.Proofs.RangeIndex.Refinement

/-! # Traffic on an index

Workers open accessors, use them, extend the range map and remove summaries, in any order and
however old the accessors are. Every call may be told to stop, and whenever it adds a page, others
may have added some before it; others also add pages between calls. `Upheld` is what all of this
keeps up: `Upheld.step` says so for one thing that happens, and `Upheld.run` for any number of them.
Only a worker who chooses the number of a new page of a chain can leave a gap between the numbers
of the chain. -/

namespace Warehouse.RangeIndex

/-! ## What happens -/

/-- What a worker does with an accessor. -/
inductive Task where
  | use (use : Use)
  /-- Add the next page to the range map of a plain table. -/
  | extendPlain
  /-- Add a page with a number of the worker's choice to a chain. -/
  | extendChain (sequence : Nat) (number : UInt32)

/-- The result of a task. -/
inductive Report where
  | answered (answer : Answer)
  | grown (growth : Growth)

namespace Task

/-- The operation that a task stands for. -/
def procedure : Task → Procedure Report
  | .use what => do return .answered (← what.procedure)
  | extendPlain => do return .grown (← Coverage.extendPlain Session.rounds)
  | extendChain sequence number => do return .grown (← Chains.extend sequence number)

/-- The range map of a plain table has no chains, and that of an append-only one nothing else. -/
def Suits (addressing : Addressing) : Task → Prop
  | .use _ => True
  | extendPlain => addressing.appendOnly = false
  | extendChain .. => addressing.appendOnly = true

/-- The worker chooses the number of a page. -/
def ChoosesNumber : Task → Prop
  | extendChain .. => True
  | _ => False

end Task

/-- Something that happens to an index. -/
inductive Happening where
  | opened
  | worked (number : Nat) (task : Task) (outcome : Except Failure Report)
  | desummarized (heapBlock : BlockNumber) (outcome : Except Failure Bool)
  /-- Others added pages. -/
  | grew (count : Nat)

/-- A worker chooses the number of a page. -/
def Happening.ChoosesNumber : Happening → Prop
  | worked _ task _ => task.ChoosesNumber
  | _ => False

namespace Service

/-- What the metapage says. -/
def contents (service : Service) : Metapage := (pagesOf service.relation).contents

/-- What may happen next. -/
inductive Step (service : Service) : Happening → Service → Prop
  | opened {world : World}
      (attempt : Attempt (openIndex service.relation.name) (service.world .unopened) (.ok ()) world) :
      Step service .opened ⟨world.relation, world.logFile, service.accessors ++ [world.accessor]⟩
  | worked {number : Nat} {accessor : Accessor} {task : Task} {outcome : Except Failure Report} {world : World}
      (at_number : service.accessors[number]? = some accessor) (suits : task.Suits accessor.addressing)
      (attempt : Attempt task.procedure (service.world accessor) outcome world) :
      Step service (.worked number task outcome)
        ⟨world.relation, world.logFile, service.accessors.set number world.accessor⟩
  | desummarized {heapBlock : BlockNumber} {outcome : Except Failure Bool} {world : World}
      (attempt : Attempt (desummarize Session.rounds service.relation.name heapBlock) (service.world .unopened)
        outcome world) :
      Step service (.desummarized heapBlock outcome) ⟨world.relation, world.logFile, service.accessors⟩
  | grew (count : Nat) : Step service (.grew count) { service with relation := service.relation.growBy count }

/-- What may happen in time. -/
inductive Traffic : Service → List Happening → Service → Prop
  | nil {service : Service} : Traffic service [] service
  | cons {service middle last : Service} {happening : Happening} {happenings : List Happening}
      (step : Step service happening middle) (traffic : Traffic middle happenings last) :
      Traffic service (happening :: happenings) last

variable {service last : Service} {happening : Happening} {happenings : List Happening}

theorem Step.size_le (step : Step service happening last) : service.size ≤ last.size := by
  cases step with
  | opened attempt => exact attempt.size_le
  | worked at_number suits attempt => exact attempt.size_le
  | desummarized attempt => exact attempt.size_le
  | grew count => exact size_growBy service.relation count

theorem Traffic.size_le (traffic : Traffic service happenings last) : service.size ≤ last.size := by
  induction traffic with
  | nil => exact Nat.le_refl _
  | cons step _ ih => exact Nat.le_trans step.size_le ih

end Service

/-! ## What is kept up -/

/-- The index is sound, no accessor knows anything wrong, and there are no gaps between the numbers
of a chain unless somebody leaves them. -/
structure Upheld (addressing : Addressing) (gaps : Bool) (service : Service) (scene : Scene) : Prop where
  shows : Shows service.relation service.logFile scene
  sound : Sound scene.image scene.image.contents
  gapless : gaps = false → Gapless scene.image scene.image.contents
  addressing_eq : scene.image.contents.addressing = addressing
  knows : ∀ accessor ∈ service.accessors, Knows scene.image scene.image.contents accessor

section Upholding

variable {addressing : Addressing} {gaps : Bool} {service last : Service} {scene : Scene} {accessor : Accessor}
  {happening : Happening} {happenings : List Happening} {world : World} {later : Moment}

/-- An operation that others run beside. -/
abbrev Mode.any (gaps : Bool) : Mode := .shared .all gaps

theorem Geometry.quiet_growBy {image : Image} {contents : Metapage} (shape : Geometry image contents) (count : Nat)
    (room : image.size + count < 2 ^ 32) : Quiet image (image.growBy count) := by
  induction count with
  | zero => exact shape.quiet_refl
  | succ count ih =>
      have quiet := ih (by omega)
      rw [Image.growBy_succ]
      exact quiet.trans ((quiet.map.geometry shape).quiet_grow (by rw [Image.size_growBy]; omega))

/-- Adding pages leaves the metapage. -/
theorem Sound.contents_growBy {image : Image} (sound : Sound image image.contents) (count : Nat)
    (room : image.size + count < 2 ^ 32) : (image.growBy count).contents = image.contents :=
  Image.contents_eq ((sound.shape.quiet_growBy count room).sound sound).holds

/-- Adding pages is something that operations do. -/
theorem evolves_growBy {mode : Mode} (count : Nat) (room : scene.image.size + count < 2 ^ 32) :
    Evolves mode scene ⟨scene.image.growBy count, scene.log⟩ := by
  induction count with
  | zero => exact .refl
  | succ count ih =>
      have evolves : Evolves mode scene ⟨scene.image.growBy count, scene.log⟩ := ih (by omega)
      rw [Image.growBy_succ]
      apply evolves.tail
      apply Advance.grow
      simp only [Image.size_growBy]
      omega

theorem Sane.upheld {ledger : Ledger} (sane : Sane service scene addressing ledger) (gaps : Bool) :
    Upheld addressing gaps service scene :=
  ⟨sane.shows, sane.sound, fun _ => sane.gapless, sane.addressing_eq, sane.knows⟩

/-- Pages that others add to a relation without a log leave the service sane. -/
theorem Sane.grow {ledger : Ledger} (sane : Sane service scene addressing ledger) (unlogged : scene.log = none)
    (count : Nat) (room : service.size + count < 2 ^ 32) :
    Sane { service with relation := service.relation.growBy count } ⟨scene.image.growBy count, scene.log⟩ addressing
      ledger := by
  rw [Service.size, ← size_pagesOf, sane.shows.pages] at room
  have quiet := sane.sound.shape.quiet_growBy count room
  have contents := sane.sound.contents_growBy count room
  have grows : Grows scene.image scene.image.contents (scene.image.growBy count)
      (scene.image.growBy count).contents := by
    rw [contents]
    exact .of_sameMap quiet.map quiet.size_le
  exact {
    shows := sane.shows.growBy count
    sound := contents ▸ quiet.sound sane.sound
    gapless := sane.gapless.of_grows grows fun sequence => congrArg (Chain.lastLogical <| ·.chain sequence) contents
    clean := by
      rintro block ⟨journal, page, log, -⟩
      rw [unlogged] at log
      contradiction
    addressing_eq := (congrArg Metapage.addressing contents).trans sane.addressing_eq
    binds := fun heapBlock payload => contents ▸ (quiet.binds sane.sound).trans (sane.binds heapBlock payload)
    knows := fun accessor mem => (sane.knows accessor mem).grow grows
    count := sane.count
    current := fun number accessor at_number marked => contents ▸ sane.current number accessor at_number marked }

/-- In an append-only index, the chain of a range that is bound goes on up to the page with its entry. -/
theorem Sane.target_le {ledger : Ledger} (sane : Sane service scene addressing ledger)
    (chained : addressing.appendOnly = true) (heapBlock : BlockNumber) {payload : List UInt8}
    (bound : ledger.bindings heapBlock = some payload) :
    addressing.target heapBlock ≤ (service.contents.chain (sequenceOf heapBlock)).lastLogical := by
  obtain ⟨block, -, -, covered, -⟩ := (sane.binds heapBlock payload).mpr bound
  have kind := (congrArg Addressing.appendOnly sane.addressing_eq).trans chained
  rw [Service.contents, sane.shows.pages, ← sane.addressing_eq]
  exact sane.sound.shape.target_le_of_covers kind covered

/-- What a round of extending the range map leaves that has added a page to it. -/
theorem Sane.extended {ledger : Ledger} {accessor : Accessor} (sane : Sane service scene addressing ledger)
    (plain : addressing.appendOnly = false) {number : Nat} (at_number : service.accessors[number]? = some accessor)
    {block : BlockNumber} {after : World}
    (ran : (Coverage.extendPlain Session.rounds).run (service.world accessor) = (.ok (.extended block), after))
    (room : after.relation.buffers.size < 2 ^ 32) :
    ∃ scene', Sane ⟨after.relation, after.logFile, service.accessors.set number after.accessor⟩ scene' addressing
      ledger.outdated ∧ scene'.image.contents.lastMapPage = block ∧
        block.toNat = scene.image.contents.lastMapPage.toNat + 1 := by
  have steady := sane.steady (List.mem_of_getElem? at_number)
  have kind : scene.image.contents.appendOnly = false :=
    (congrArg Addressing.appendOnly sane.addressing_eq).trans plain
  have suits : accessor.addressing.appendOnly = false :=
    (congrArg Addressing.appendOnly steady.knows.addressing_eq).trans kind
  have below : accessor.lastMapPage < scene.image.contents.lastMapPage + 1 := by
    rw [UInt32.lt_iff_toNat_lt, sane.sound.shape.toNat_next kind]
    exact Nat.lt_succ_of_le (UInt32.le_iff_toNat_le.mp steady.knows.last_le)
  have contract : Ensures .solo _ (Coverage.extendPlain Session.rounds) ⟨scene, scene, accessor, []⟩ :=
    extendPlain_spec steady rfl suits (fun _ => below) (fun _ block loose => absurd loose (sane.clean block))
      fun _ => enoughRounds_le
  have run := contract.run (sane.models accessor)
  rw [ran] at run
  obtain ⟨growth, later, ok, models, -, steady', -, alone⟩ := run room
  obtain rfl := Except.ok.inj ok
  obtain ⟨drift, growing, -, last_eq, block_eq⟩ := alone rfl
  have reached : later.contents.lastMapPage = scene.image.contents.lastMapPage + 1 := by
    apply UInt32.toNat_inj.mp
    rw [last_eq, block_eq, sane.sound.shape.toNat_next kind]
    rfl
  have clean : ∀ block, ¬ later.scene.Loose block := fun block loose => by
    have short := (growing block loose).2
    rw [reached] at short
    exact UInt32.lt_irrefl _ short
  have known : ∀ other ∈ service.accessors.set number _, _ := Sane.known_set (models.accessor ▸ steady'.knows)
  refine ⟨later.scene, ?_, last_eq, block_eq⟩
  exact sane.outdate models steady' drift.evolves clean (sane.binds_drift drift) known List.length_set rfl

/-- Somebody opens the index, which is a call. -/
theorem Sane.step_opened {ledger : Ledger} (sane : Sane service scene addressing ledger) :
    service.Step .opened (service.perform .openAccessor).2 := by
  have attempt := attempt_run (openIndex service.relation.name) (service.world .unopened)
  rw [sane.run_openIndex] at attempt
  rw [sane.perform_openAccessor]
  exact .opened attempt

/-- Somebody uses an accessor, which is a call. -/
theorem Service.step_use {number : Nat} {use : Use} {answer : Answer}
    (answered : (service.perform (.use number use)).1 = some (.ok answer)) :
    service.Step (.worked number (.use use) (.ok (.answered answer))) (service.perform (.use number use)).2 := by
  rw [Service.perform] at answered ⊢
  cases at_number : service.accessors[number]? with
  | none =>
      rw [at_number] at answered
      contradiction
  | some accessor =>
      rw [at_number] at answered
      have ok : (use.procedure.run (service.world accessor)).1 = .ok answer := Option.some.inj answered
      have attempt := attempt_run (Task.use use).procedure (service.world accessor)
      rw [Task.procedure, Procedure.run_saying, ok] at attempt
      exact .worked at_number trivial attempt

namespace Upheld

theorem steady (upheld : Upheld addressing gaps service scene) (mem : accessor ∈ service.accessors) :
    Steady (.any gaps) ⟨scene, scene, accessor, []⟩ :=
  ⟨upheld.sound, upheld.knows accessor mem, upheld.gapless, .refl⟩

theorem grounded (upheld : Upheld addressing gaps service scene) (accessor : Accessor) :
    Grounded (.any gaps) ⟨scene, scene, accessor, []⟩ :=
  ⟨upheld.sound, upheld.gapless, .refl⟩

/-- What operations do keeps everything up. -/
theorem next (upheld : Upheld addressing gaps service scene) {after : Scene} {relation : Relation} {file : ByteArray}
    {accessors : List Accessor} (evolves : Evolves (.any gaps) scene after) (shows : Shows relation file after)
    (known : ∀ accessor ∈ accessors, accessor ∈ service.accessors ∨ Knows after.image after.image.contents accessor) :
    Upheld addressing gaps ⟨relation, file, accessors⟩ after := by
  obtain ⟨contents, sound, grows⟩ := Evolves.sound evolves upheld.sound
  obtain rfl := Image.contents_eq sound.holds
  exact {
    shows := shows
    sound := sound
    gapless := fun dense => evolves.gapless upheld.sound (upheld.gapless dense) dense
    addressing_eq := grows.addressing_eq.trans upheld.addressing_eq
    knows := fun accessor mem => (known accessor mem).elim (fun old => (upheld.knows accessor old).grow grows) id }

/-- Whatever disturbs an operation, it does what operations do. -/
theorem attempt {α : Type} {procedure : Procedure α} {outcome : Except Failure α}
    (upheld : Upheld addressing gaps service scene)
    (contract : Ensures (.any gaps) (fun _ later => Steady (.any gaps) later) procedure ⟨scene, scene, accessor, []⟩)
    (attempt : Attempt procedure (service.world accessor) outcome world) (room : world.relation.buffers.size < 2 ^ 32) :
    ∃ later, Models world later ∧ Steady (.any gaps) later ∧ Evolves (.any gaps) scene later.scene := by
  have models : Models (service.world accessor) ⟨scene, scene, accessor, []⟩ := ⟨upheld.shows, rfl, rfl⟩
  obtain ⟨later, models', evolves, keeps⟩ := contract.attempt models (Mode.shared_ne_solo .all) attempt room
  have steady : Steady (.any gaps) later := by
    cases outcome with
    | ok value => exact keeps
    | error failure => exact keeps.2
  exact ⟨later, models', steady, evolves.trans steady.evolves⟩

end Upheld

/-- The contract of a task among others. -/
theorem Task.ensures (task : Task) (steady : Steady (.any gaps) ⟨scene, scene, accessor, []⟩)
    (suits : task.Suits accessor.addressing)
    (dense : gaps = false → accessor.addressing.appendOnly = true → ¬ task.ChoosesNumber) :
    Ensures (.any gaps) (fun _ later => Steady (.any gaps) later) task.procedure ⟨scene, scene, accessor, []⟩ := by
  have shared : ∀ {statement : Prop}, Mode.any gaps = .solo → statement :=
    fun solo => absurd solo (Mode.shared_ne_solo .all)
  cases task with
  | use use =>
      have grants : True → ∀ heapBlock payload, (Mode.any gaps).Grants heapBlock (some payload) := by
        intro _ heapBlock payload rights gaps' eq
        obtain ⟨rfl, -⟩ := Mode.shared.inj eq
        trivial
      apply (use.ensures (Mode.shared_ne_solo .all) steady rfl grants).andThen
      intro answer later steady'
      exact steady' trivial
  | extendPlain =>
      apply (@extendPlain_spec _ _ _ 0 steady rfl suits shared shared shared).andThen
      intro growth later extended
      obtain ⟨-, steady', -⟩ := extended
      exact steady'
  | extendChain sequence number =>
      by_cases bound : sequence < sequenceCount
      · have numbered : (Mode.any gaps).Dense → number.toNat = (accessor.chainOf sequence).lastLogical.toNat + 1 :=
          fun none => absurd trivial (dense none suits)
        apply (extend_spec steady rfl suits bound numbered).andThen
        intro growth later extended
        obtain ⟨-, steady', -⟩ := extended
        exact steady'
      · -- there is no such chain
        simp only [procedure, Chains.extend]
        apply Ensures.bind
        apply steady.accessor
        intro middle _ steady' _
        rw [Accessor.chain, dif_neg bound]
        exact ⟨Mode.shared_ne_solo .all, steady'⟩

namespace Upheld

/-- Whatever happens next is something that operations do. -/
theorem step (upheld : Upheld addressing gaps service scene) (step : service.Step happening last)
    (dense : gaps = false → addressing.appendOnly = true → ¬ happening.ChoosesNumber) (room : last.size < 2 ^ 32) :
    ∃ after, Upheld addressing gaps last after ∧ Evolves (.any gaps) scene after := by
  cases step with
  | opened attempt =>
      have contract : Ensures (.any gaps) (fun _ later => Steady (.any gaps) later)
          (openIndex service.relation.name) ⟨scene, scene, .unopened, []⟩ :=
        (openIndex_spec (upheld.grounded .unopened) rfl fun _ => rfl).mono fun _ _ opened => opened.2.1
      obtain ⟨later, models, steady, evolves⟩ := upheld.attempt contract attempt room
      refine ⟨later.scene, upheld.next evolves models.shows fun accessor mem => ?_, evolves⟩
      rcases List.mem_append.mp mem with old | new
      · exact .inl old
      · obtain rfl := List.mem_singleton.mp new
        exact .inr (models.accessor ▸ steady.knows)
  | @worked number accessor task outcome world at_number suits attempt =>
      have steady := upheld.steady (List.mem_of_getElem? at_number)
      have addressing_eq : accessor.addressing = addressing := steady.knows.addressing_eq.trans upheld.addressing_eq
      have contract := task.ensures steady suits fun none chained => dense none (addressing_eq ▸ chained)
      obtain ⟨later, models, steady, evolves⟩ := upheld.attempt contract attempt room
      exact ⟨later.scene, upheld.next evolves models.shows (Sane.known_set (models.accessor ▸ steady.knows)), evolves⟩
  | @desummarized heapBlock outcome world attempt =>
      have grants : ∀ heapBlock, (Mode.any gaps).Grants heapBlock none := by
        intro heapBlock rights gaps' eq
        obtain ⟨rfl, -⟩ := Mode.shared.inj eq
        trivial
      have contract : Ensures (.any gaps) (fun _ later => Steady (.any gaps) later)
          (desummarize Session.rounds service.relation.name heapBlock) ⟨scene, scene, .unopened, []⟩ :=
        (desummarize_spec (upheld.grounded .unopened) rfl (fun _ => rfl) (grants _)
          fun solo => absurd solo (Mode.shared_ne_solo .all)).mono fun _ _ removed => removed.2.1
      obtain ⟨later, models, -, evolves⟩ := upheld.attempt contract attempt room
      exact ⟨later.scene, upheld.next evolves models.shows fun _ => .inl, evolves⟩
  | grew count =>
      have size : (service.relation.growBy count).buffers.size < 2 ^ 32 := room
      rw [buffers_growBy, ← size_pagesOf, upheld.shows.pages] at size
      have evolves : Evolves (.any gaps) scene _ := evolves_growBy count size
      exact ⟨_, upheld.next evolves (upheld.shows.growBy count) fun _ => .inl, evolves⟩

/-- Whatever happens is something that operations do. -/
theorem run (upheld : Upheld addressing gaps service scene) (traffic : service.Traffic happenings last)
    (dense : gaps = false → addressing.appendOnly = true → ∀ happening ∈ happenings, ¬ happening.ChoosesNumber)
    (room : last.size < 2 ^ 32) :
    ∃ after, Upheld addressing gaps last after ∧ Evolves (.any gaps) scene after := by
  induction traffic generalizing scene with
  | nil => exact ⟨scene, upheld, .refl⟩
  | cons step traffic ih =>
      have room' := Nat.lt_of_le_of_lt traffic.size_le room
      obtain ⟨middle, upheld', evolves⟩ :=
        upheld.step step (fun none chained => dense none chained _ List.mem_cons_self) room'
      obtain ⟨after, upheld'', evolves'⟩ :=
        ih upheld' (fun none chained happening mem => dense none chained happening (List.mem_cons_of_mem _ mem)) room
      exact ⟨after, upheld'', evolves.trans evolves'⟩

/-- An accessor is used when nobody else acts and the log does not account for the pages. -/
theorem steady_alone (upheld : Upheld addressing false service scene) (mem : accessor ∈ service.accessors) :
    Steady .solo ⟨scene.far, scene.far, accessor, []⟩ :=
  ⟨upheld.sound, upheld.knows accessor mem, fun _ => upheld.gapless rfl, .refl⟩

/-- Other workers who add pages do not keep a call from what it comes to without them. -/
theorem attempt_alone {α : Type} {procedure : Procedure α} {outcome : Except Failure α} {post : α → Moment → Prop}
    (upheld : Upheld addressing gaps service scene)
    (contract : Ensures .solo post procedure ⟨scene.far, scene.far, accessor, []⟩)
    (attempt : Attempt procedure (service.world accessor) outcome world) (room : world.relation.buffers.size < 2 ^ 32) :
    outcome = .error (.error .cancelled) ∨
      ∃ value later, outcome = .ok value ∧ pagesOf world.relation = later.scene.image ∧ post value later := by
  have models : Models (service.world accessor) ⟨scene.far, scene.far, accessor, []⟩ .positions :=
    ⟨upheld.shows.far, rfl, rfl⟩
  obtain ⟨metapage, at_meta, -⟩ := upheld.sound.holds
  have calm : ¬ scene.far.Reserved := Scene.not_reserved_far (Nat.ne_zero_of_lt (Image.lt_of_page? at_meta))
  rcases contract.attempt_alone models calm attempt room with cancelled | ⟨value, later, ok, models', -, done⟩
  · exact .inl cancelled
  · exact .inr ⟨value, later, ok, models'.shows.pages, done⟩

end Upheld

end Upholding

end Warehouse.RangeIndex
