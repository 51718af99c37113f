import Warehouse.Proofs.RangeIndex.Attempts
import Warehouse.Proofs.RangeIndex.CrashRecovery
import Warehouse.Proofs.RangeIndex.Interleavings

/-! # Log writes that fail

An operation changes its pages first and writes the record of the change afterwards, and when the
log device does not take the record, the pages stay changed. Up to there the operation does what
it does when the device takes every record: `Procedure.run_failing` says which part of a run that
is. So `perform_with_failing_log` knows the pages, which bind what the lost record says, and the
log, which brings back what the index bound before the call. -/

namespace Warehouse

/-- The relation with a log device that takes so many more records and fails at the next one. -/
def Relation.failing (relation : Relation) (taken : Nat) : Relation :=
  { relation with interference := ⟨.none, .none, some (taken + 1)⟩ }

namespace RangeIndex

open Recovery

def World.failing (world : World) (taken : Nat) : World := { world with relation := world.relation.failing taken }

def Service.failing (service : Service) (taken : Nat) : Service :=
  { service with relation := service.relation.failing taken }

/-! ## Parts of a run -/

/-- What a request writes to the log. -/
def Request.written : Request → List Log.Record
  | .append record => [record]
  | _ => []

/-- What an operation writes to the log. -/
def Procedure.written {α : Type} : Procedure α → World → List Log.Record
  | .done _, _ => []
  | .fail _, _ => []
  | .ask request next, world =>
      match world.perform request with
      | (.ok answer, after) => request.written ++ (next answer).written after
      | (.error _, _) => []

/-- An operation that nobody disturbs gets to a point, and has written some records by then. -/
inductive Procedure.Reaches {α : Type} : Procedure α → World → List Log.Record → Procedure α → World → Prop
  | here {procedure : Procedure α} {world : World} : Reaches procedure world [] procedure world
  | step {request : Request} {next : request.Answer → Procedure α} {answer : request.Answer}
      {world middle after : World} {records : List Log.Record} {rest : Procedure α}
      (performed : world.perform request = (.ok answer, middle))
      (later : Reaches (next answer) middle records rest after) :
      Reaches (.ask request next) world (request.written ++ records) rest after

section Runs

variable {α : Type} {procedure rest : Procedure α} {world after : World} {records : List Log.Record} {taken : Nat}

/-- An operation that comes to a value gets to its end. -/
theorem Procedure.reaches_of_run (procedure : Procedure α) (world : World) {value : α}
    (outcome : (procedure.run world).1 = .ok value) :
    procedure.Reaches world (procedure.written world) (.done value) (procedure.run world).2 := by
  induction procedure generalizing world with
  | done value' =>
      obtain rfl := Except.ok.inj outcome
      exact .here
  | fail failure => cases outcome
  | ask request next ih =>
      rw [Procedure.run] at outcome ⊢
      rw [Procedure.written]
      cases performed : world.perform request with
      | mk result middle =>
          rw [performed] at outcome
          cases result with
          | error failure => cases outcome
          | ok answer => exact .step performed (ih answer middle outcome)

theorem Procedure.Reaches.run_eq (reaches : procedure.Reaches world records rest after) :
    procedure.run world = rest.run after := by
  induction reaches with
  | here => rfl
  | step performed _ ih => rw [Procedure.run, performed]; exact ih

theorem Procedure.Reaches.size_le (reaches : procedure.Reaches world records rest after) :
    world.relation.buffers.size ≤ after.relation.buffers.size := by
  induction reaches with
  | here => exact Nat.le_refl _
  | @step request next answer world middle after records rest performed later ih =>
      have size := size_perform world request
      rw [performed] at size
      exact Nat.le_trans size ih

/-! ## Requests to a relation whose log device fails -/

theorem Relation.read_failing {relation : Relation} (alone : relation.interference = .none) (taken : Nat)
    (block : BlockNumber) :
    (relation.failing taken).read block = ((relation.read block).1, (relation.read block).2.failing taken) ∧
      (relation.read block).2 = relation := by
  obtain ⟨name, buffers, log, interference⟩ := relation
  obtain rfl : interference = .none := alone
  simp only [Relation.read, Relation.beforeReading, Relation.failing, Relation.buffer?, Interference.none]
  cases buffers[block.toNat]? <;> exact ⟨rfl, rfl⟩

theorem Relation.allocate_failing {relation : Relation} (alone : relation.interference = .none) (taken : Nat) :
    (relation.failing taken).allocate = (relation.allocate.1, relation.allocate.2.failing taken) ∧
      relation.allocate.2.interference = .none ∧ relation.allocate.2.log = relation.log := by
  obtain ⟨name, buffers, log, interference⟩ := relation
  obtain rfl : interference = .none := alone
  simp only [Relation.allocate, Relation.failing, Interference.none, Option.getD_none, Relation.growBy, if_true]
  by_cases full : invalidBlock.toNat < buffers.size
  · rw [if_pos full, if_pos full]
    exact ⟨rfl, rfl, rfl⟩
  · rw [if_neg full, if_neg full]
    exact ⟨rfl, rfl, rfl⟩

/-- A failing log device changes nothing but log writes. -/
theorem World.perform_failing (alone : world.relation.interference = .none) (taken : Nat) {request : Request}
    (silent : ∀ record, request ≠ .append record) :
    (world.failing taken).perform request = ((world.perform request).1, (world.perform request).2.failing taken) ∧
      (world.perform request).2.relation.interference = .none ∧
      (world.perform request).2.relation.log = world.relation.log := by
  cases request with
  | append record => exact absurd rfl (silent record)
  | pin block =>
      obtain ⟨read, same⟩ := Relation.read_failing alone taken block
      simp only [World.perform, World.failing, read]
      cases eq : world.relation.read block with
      | mk outcome relation =>
          rw [eq] at same
          obtain rfl : relation = world.relation := same
          cases outcome <;> exact ⟨rfl, alone, rfl⟩
  | allocate =>
      obtain ⟨allocated, alone', log⟩ := Relation.allocate_failing alone taken
      simp only [World.perform, World.failing, allocated]
      cases eq : world.relation.allocate with
      | mk outcome relation =>
          rw [eq] at alone' log
          cases outcome <;> exact ⟨rfl, alone', log⟩
  | acquire block =>
      have same : (world.failing taken).locking block = world.locking block := rfl
      simp only [World.perform, same]
      cases world.locking block <;> exact ⟨rfl, alone, rfl⟩
  | _ => exact ⟨rfl, alone, rfl⟩

/-- A failing log device counts down to the write that fails. -/
theorem World.perform_append_failing (alone : world.relation.interference = .none) (logged : world.relation.log ≠ none)
    (record : Log.Record) : ∃ lsn after, world.perform (.append record) = (.ok (some lsn), after) ∧
      after.relation.interference = .none ∧ after.relation.log ≠ none ∧
      (world.failing 0).perform (.append record) = (.error (.error Relation.logDeviceFailure), world) ∧
      ∀ taken, (world.failing (taken + 1)).perform (.append record) = (.ok (some lsn), after.failing taken) := by
  obtain ⟨⟨name, buffers, log, interference⟩, file, accessor, held⟩ := world
  obtain rfl : interference = .none := alone
  obtain ⟨writer, rfl⟩ : ∃ writer, log = some writer := Option.ne_none_iff_exists'.mp logged
  refine ⟨_, _, rfl, rfl, Option.some_ne_none _, rfl, fun taken => ?_⟩
  have attempt : Relation.logAttempt ⟨.none, .none, some (taken + 1 + 1)⟩ =
      (true, ⟨.none, .none, some (taken + 1)⟩) := by
    simp [Relation.logAttempt]
  simp only [World.perform, World.failing, Relation.failing, Relation.logRecord, attempt]
  rfl

/-- A log device that fails only after the operation has ended makes no difference. One that fails
before ends the operation where it is about to write the record. -/
theorem Procedure.run_failing (procedure : Procedure α) (world : World) (alone : world.relation.interference = .none)
    (logged : world.relation.log ≠ none) (taken : Nat) :
    (procedure.written world).length ≤ taken ∧ procedure.run (world.failing taken) =
        ((procedure.run world).1, (procedure.run world).2.failing (taken - (procedure.written world).length)) ∨
      ∃ front record back next stop, procedure.written world = front ++ record :: back ∧ front.length = taken ∧
        procedure.Reaches world front (.ask (.append record) next) stop ∧
        procedure.run (world.failing taken) = (.error (.error Relation.logDeviceFailure), stop) := by
  induction procedure generalizing world taken with
  | done value => exact .inl ⟨Nat.zero_le _, rfl⟩
  | fail failure => exact .inl ⟨Nat.zero_le _, rfl⟩
  | ask request next ih =>
      by_cases appends : ∃ record, request = .append record
      · obtain ⟨record, rfl⟩ := appends
        obtain ⟨lsn, middle, performed, alone', logged', last, failing⟩ :=
          World.perform_append_failing alone logged record
        simp only [Procedure.run, Procedure.written, performed, Request.written, List.singleton_append]
        cases taken with
        | zero =>
            rw [last]
            exact .inr ⟨[], record, _, next, world, rfl, rfl, .here, rfl⟩
        | succ taken =>
            rw [failing]
            rcases ih (some lsn) middle alone' logged' taken with
              ⟨fewer, run⟩ | ⟨front, lost, back, next', stop, split, length, reaches, run⟩
            · refine .inl ⟨Nat.succ_le_succ fewer, ?_⟩
              rw [List.length_cons, Nat.add_sub_add_right]
              exact run
            · refine .inr ⟨record :: front, lost, back, next', stop, ?_, congrArg (· + 1) length,
                .step performed reaches, run⟩
              rw [split, List.cons_append]
      · have silent : ∀ record, request ≠ .append record := fun record eq => appends ⟨record, eq⟩
        have unwritten : request.written = [] := by
          cases request with
          | append record => exact absurd rfl (silent record)
          | _ => rfl
        obtain ⟨failing, alone', log⟩ := World.perform_failing alone taken silent
        simp only [Procedure.run, Procedure.written, failing, unwritten, List.nil_append]
        cases performed : world.perform request with
        | mk outcome middle =>
            rw [performed] at alone' log
            cases outcome with
            | error failure => exact .inl ⟨Nat.zero_le _, rfl⟩
            | ok answer =>
                refine (ih answer middle alone' (log ▸ logged) taken).imp_right ?_
                rintro ⟨front, lost, back, next', stop, split, length, reaches, run⟩
                have all : Procedure.Reaches (.ask request next) world (request.written ++ front) _ stop :=
                  .step performed reaches
                rw [unwritten, List.nil_append] at all
                exact ⟨front, lost, back, next', stop, split, length, all, run⟩

end Runs

/-! ## Contracts in the middle of a run -/

namespace Journal

/-- Records with the positions that they get in the log. -/
def entries (journal : Journal) : List Log.Record → List (Lsn × Log.Record)
  | [] => []
  | record :: records => (journal.position record, record) :: (journal.push record).entries records

/-- The log with more records. -/
def pushAll (journal : Journal) (records : List Log.Record) : Journal :=
  ⟨journal.start, journal.records ++ journal.entries records⟩

variable {journal : Journal} {front back records : List Log.Record} {record : Log.Record}

theorem pushAll_nil (journal : Journal) : journal.pushAll [] = journal := by
  rw [pushAll, entries, List.append_nil]

theorem pushAll_cons : journal.pushAll (record :: records) = (journal.push record).pushAll records := by
  rw [pushAll, entries, pushAll, push, List.append_assoc, List.singleton_append]

theorem pushAll_append : journal.pushAll (front ++ back) = (journal.pushAll front).pushAll back := by
  induction front generalizing journal with
  | nil => rw [List.nil_append, pushAll_nil]
  | cons record front ih => rw [List.cons_append, pushAll_cons, pushAll_cons, ih]

theorem entries_append :
    journal.entries (front ++ back) = journal.entries front ++ (journal.pushAll front).entries back := by
  induction front generalizing journal with
  | nil => rw [List.nil_append, pushAll_nil, entries, List.nil_append]
  | cons record front ih => rw [List.cons_append, entries, entries, ih, pushAll_cons, List.cons_append]

theorem length_entries : (journal.entries records).length = records.length := by
  induction records generalizing journal with
  | nil => rfl
  | cons record records ih => rw [entries, List.length_cons, List.length_cons, ih]

theorem take_pushAll : (journal.pushAll (front ++ back)).records.take (journal.records.length + front.length) =
    (journal.pushAll front).records := by
  have length : (journal.pushAll front).records.length = journal.records.length + front.length := by
    rw [pushAll, List.length_append, length_entries]
  rw [pushAll_append, ← length, pushAll]
  exact List.take_left

end Journal

section Contracts

variable {α : Type} {mode : Mode} {post : α → Moment → Prop} {procedure rest : Procedure α} {world after : World}
  {moment : Moment} {records : List Log.Record} {scene : Scene} {contents contents' : Metapage} {record : Log.Record}
  {pages : List (BlockNumber × Page)}

/-- Records are added to the log of the scene, if it has one. -/
def Scene.Logs (scene : Scene) (records : List Log.Record) (after : Scene) : Prop :=
  (∀ record ∈ records, record.Short) ∧ after.log = scene.log.map fun journal => journal.pushAll records

theorem Scene.Logs.of_eq {after : Scene} (same : after.log = scene.log) : scene.Logs [] after := by
  refine ⟨fun _ mem => absurd mem List.not_mem_nil, ?_⟩
  simp only [same, Journal.pushAll_nil, Option.map_id']

theorem Scene.Logs.trans {middle after : Scene} {front back : List Log.Record} (h : scene.Logs front middle)
    (h' : middle.Logs back after) : scene.Logs (front ++ back) after := by
  refine ⟨fun record mem => (List.mem_append.mp mem).elim (h.1 record) (h'.1 record), ?_⟩
  rw [h'.2, h.2, Option.map_map]
  simp only [Function.comp_def, Journal.pushAll_append]

theorem Journal.Readable.pushAll {journal : Journal} (readable : journal.Readable)
    (short : ∀ record ∈ records, record.Short) : (journal.pushAll records).Readable := by
  induction records generalizing journal with
  | nil => rwa [Journal.pushAll_nil]
  | cons record records ih =>
      rw [Journal.pushAll_cons]
      exact ih (readable.push (short record List.mem_cons_self))
        fun other mem => short other (List.mem_cons_of_mem _ mem)

theorem Moment.Drafts.short (drafts : moment.Drafts mode record) : record.Short := by
  cases drafts with
  | create => exact (by decide : 0 < 2 ^ 15)
  | change _ _ change => exact change.short

/-- What a request adds to the log. -/
theorem Moment.Serves.logs {request : Request} {next : request.Answer → Moment → Prop}
    (h : moment.Serves mode request next) : moment.Serves mode request fun answer later =>
      next answer later ∧ moment.scene.Logs request.written later.scene := by
  have silent : moment.scene.Logs [] moment.scene := .of_eq rfl
  cases request with
  | poll =>
      refine ⟨h.1, ?_⟩
      by_cases cancelled : moment.accessor.cancelled = true
      · rw [if_pos cancelled]
        exact (if_pos cancelled).mp h.2
      · rw [if_neg cancelled]
        exact ⟨(if_neg cancelled).mp h.2, silent⟩
  | accessor => exact ⟨h, silent⟩
  | remember accessor => exact ⟨h.1, h.2, silent⟩
  | countBlocks => exact ⟨h, silent⟩
  | pin block =>
      simp only [Moment.Serves] at h ⊢
      split at h
      · exact h
      · exact ⟨h, silent⟩
  | allocate => exact fun extra alone room => ⟨h extra alone room, .of_eq rfl⟩
  | view block => exact Moment.Locks.mono h fun page served => ⟨served, silent⟩
  | acquire block => exact Moment.Locks.mono h fun page served => ⟨served, silent⟩
  | write block page => exact ⟨h, .of_eq rfl⟩
  | markDirty block => exact ⟨h, silent⟩
  | release block => exact ⟨h, silent⟩
  | releaseAll => exact ⟨h, silent⟩
  | append record =>
      obtain ⟨drafts, served⟩ := h
      have short : ∀ other ∈ [record], other.Short := fun other mem => List.mem_singleton.mp mem ▸ drafts.short
      simp only [Moment.Serves]
      refine ⟨drafts, ?_⟩
      split at served
      · rename_i unlogged
        exact ⟨served, short, by rw [unlogged, Option.map_none]⟩
      · rename_i journal logged
        refine ⟨served, short, ?_⟩
        rw [logged]
        exact congrArg some (Journal.pushAll_cons.trans (Journal.pushAll_nil _)).symm

/-- Wherever an operation gets, the rest of it keeps the contract. -/
theorem Ensures.reaches (ensures : Ensures mode post procedure moment) (models : Models world moment)
    (reaches : procedure.Reaches world records rest after) (room : after.relation.buffers.size < 2 ^ 32) :
    ∃ later, Models after later ∧ Ensures mode post rest later ∧ Evolves mode moment.base later.base ∧
      moment.scene.Logs records later.scene := by
  induction reaches generalizing moment with
  | here => exact ⟨moment, models, ensures, .refl, .of_eq rfl⟩
  | @step request next answer world middle after records rest performed later ih =>
      obtain ⟨base, evolves, serves⟩ := ensures.rebase
      have models' : Models world { moment with base } := ⟨models.shows, models.accessor, models.held⟩
      have small : (world.perform request).2.relation.buffers.size < 2 ^ 32 := by
        rw [performed]
        exact Nat.lt_of_le_of_lt later.size_le room
      have served := models'.serves serves.logs small
      rw [World.Serves, performed] at served
      obtain ⟨next', models'', rfl, ensures', logs⟩ := served
      obtain ⟨last, models₃, ensures'', evolves', logs'⟩ := ih ensures' models'' room
      exact ⟨last, models₃, ensures'', evolves.trans evolves', logs.trans logs'⟩

/-- A change can be made without a log. -/
theorem Change.unlogged (change : Change mode scene contents record pages contents') :
    Change mode ⟨scene.image, none⟩ contents record pages contents' := by
  refine change.transport (fun block page fresh site => ?_) id
  refine ⟨site.at_block, site.regular, site.takes, site.fresh_eq, fun _ _ => ?_⟩
  rintro ⟨journal, page, logged, -⟩
  cases logged

/-- The pages of a change have its effect before the record is written. -/
theorem Change.effect_unlogged (sound : Sound scene.image contents)
    (change : Change mode scene contents record pages contents') :
    Effect scene.image contents (scene.image.putAll pages) contents' record := by
  have effect := change.unlogged.effect (show Sound (Scene.mk scene.image none).image contents from sound)
  have same : (Scene.commit ⟨scene.image, none⟩ record pages).image = scene.image.putAll pages := by
    simp only [Scene.commit, Scene.stamp]
    rw [List.map_congr_left (fun _ _ => rfl), List.map_id']
  rwa [same] at effect

/-- Where an operation on an index is about to write a record, its pages are as the record says, and
otherwise as its operations have left them. -/
theorem Ensures.drafts {next : Option Lsn → Procedure α}
    (ensures : Ensures mode post (.ask (.append record) next) moment)
    (sound : Sound moment.base.image moment.base.image.contents) :
    ∃ scene, Evolves mode moment.base scene ∧ scene.log = moment.scene.log ∧
      ∃ contents', Effect scene.image scene.image.contents moment.scene.image contents' record := by
  obtain ⟨base, evolves, drafts, -⟩ := ensures.rebase
  have sound' := evolves.sound_contents sound
  cases drafts with
  | create blank => exact absurd (sound'.shape.metaType_of blank).1 (by simp [pageType, metaType])
  | @change scene contents contents' _ pages evolves' sound change written =>
      obtain rfl := Image.contents_eq sound.holds
      have written : moment.scene = ⟨scene.image.putAll pages, scene.log⟩ := written
      refine ⟨scene, evolves.trans evolves', by rw [written], contents', ?_⟩
      rw [written]
      exact change.effect_unlogged sound

end Contracts

/-! ## Calls -/

namespace Service

/-- The operation of a call, and the accessor that it works with. -/
def operation (service : Service) : Call → Option (Accessor × Procedure Answer)
  | .openAccessor => some (.unopened, do
      openIndex service.relation.name
      return .opened)
  | .use number use => service.accessors[number]?.map fun accessor => (accessor, use.procedure)
  | .desummarize heapBlock => some (.unopened, do
      return .removed (← RangeIndex.desummarize Session.rounds service.relation.name heapBlock))

/-- What the operation of a call leaves. -/
def settle (service : Service) (call : Call) (outcome : Except Failure Answer) (world : World) : Service :=
  ⟨world.relation, world.logFile,
    match call, outcome with
    | .openAccessor, .ok _ => service.accessors ++ [world.accessor]
    | .openAccessor, .error _ => service.accessors
    | .use number _, _ => service.accessors.set number world.accessor
    | .desummarize _, _ => service.accessors⟩

variable {service : Service} {call : Call} {accessor : Accessor} {procedure : Procedure Answer}

/-- A call runs its operation. -/
theorem perform_eq (operation : service.operation call = some (accessor, procedure)) :
    service.perform call = (some (procedure.run (service.world accessor)).1,
      service.settle call (procedure.run (service.world accessor)).1 (procedure.run (service.world accessor)).2) := by
  cases call with
  | openAccessor =>
      obtain ⟨rfl, rfl⟩ := Prod.mk.inj (Option.some.inj operation)
      change _ = (some ((Procedure.bind _ _).run _).1, settle _ _ ((Procedure.bind _ _).run _).1
        ((Procedure.bind _ _).run _).2)
      rw [perform, Procedure.run_bind]
      cases (openIndex service.relation.name).run (service.world .unopened) with
      | mk outcome world => cases outcome <;> rfl
  | use number use =>
      obtain ⟨accessor', at_number, eq⟩ := Option.map_eq_some_iff.mp operation
      obtain ⟨rfl, rfl⟩ := Prod.mk.inj eq
      rw [perform, at_number]
      rfl
  | desummarize heapBlock =>
      obtain ⟨rfl, rfl⟩ := Prod.mk.inj (Option.some.inj operation)
      change _ = (some ((Procedure.bind _ _).run _).1, settle _ _ ((Procedure.bind _ _).run _).1
        ((Procedure.bind _ _).run _).2)
      rw [perform, Procedure.run_bind]
      cases (RangeIndex.desummarize Session.rounds service.relation.name heapBlock).run (service.world .unopened) with
      | mk outcome world => cases outcome <;> rfl

/-- A call with an accessor that nobody has opened does nothing. -/
theorem perform_none (unopened : service.operation call = none) : service.perform call = (none, service) := by
  cases call with
  | openAccessor => cases unopened
  | use number use => rw [perform, Option.map_eq_none_iff.mp unopened]
  | desummarize heapBlock => cases unopened

/-- A failing log device changes nothing about which operation a call runs. -/
theorem perform_failing (operation : service.operation call = some (accessor, procedure)) {taken : Nat}
    {outcome : Except Failure Answer} {world : World}
    (run : procedure.run ((service.world accessor).failing taken) = (outcome, world)) :
    (service.failing taken).perform call = (some outcome, (service.failing taken).settle call outcome world) := by
  have operation : (service.failing taken).operation call = some (accessor, procedure) := operation
  have world_eq : (service.failing taken).world accessor = (service.world accessor).failing taken := rfl
  rw [perform_eq operation, world_eq, run]

theorem settle_failing (outcome : Except Failure Answer) (world : World) (taken left : Nat) :
    (service.failing taken).settle call outcome (world.failing left) =
      (service.settle call outcome world).failing left := by
  cases call with
  | openAccessor => cases outcome <;> rfl
  | use number use => rfl
  | desummarize heapBlock => rfl

end Service

section Calls

variable {index : String} {service : Service} {scene : Scene} {journal : Journal} {addressing : Addressing}
  {ledger : Ledger} {call : Call} {accessor : Accessor} {procedure : Procedure Answer}

/-- The operation of a call keeps a contract, or it is refused and does nothing. -/
theorem Sane.operation_spec (sane : Sane service scene addressing ledger)
    (operation : service.operation call = some (accessor, procedure)) :
    Ensures .solo (fun _ _ => True) procedure ⟨scene, scene, accessor, []⟩ ∨
      ∃ failure, ∀ world : World, world.accessor = accessor → procedure.run world = (.error failure, world) := by
  cases call with
  | openAccessor =>
      obtain ⟨rfl, rfl⟩ := Prod.mk.inj (Option.some.inj operation)
      exact .inl ((openIndex_spec (sane.grounded .unopened) rfl fun _ => rfl).andThen fun _ _ _ => trivial)
  | desummarize heapBlock =>
      obtain ⟨rfl, rfl⟩ := Prod.mk.inj (Option.some.inj operation)
      exact .inl ((desummarize_spec (sane.grounded .unopened) rfl (fun _ => rfl) (Mode.grants_solo _ _)
          fun _ => enoughRounds_le).andThen
        fun _ _ _ => trivial)
  | use number use =>
      obtain ⟨accessor', at_number, eq⟩ := Option.map_eq_some_iff.mp operation
      obtain ⟨rfl, rfl⟩ := Prod.mk.inj eq
      have mem := List.mem_of_getElem? at_number
      by_cases fits : use.Fits
      · exact .inl ((use_spec use (sane.steady mem) rfl sane.clean fits).mono fun _ _ _ => trivial)
      · cases use with
        | insert heapBlock payload =>
            refine .inr ⟨.error (.pageFull invalidBlock), fun world eq => ?_⟩
            have valid : world.accessor.addressing.Valid := by
              rw [eq, (sane.knows accessor' mem).addressing_eq, sane.addressing_eq]
              exact sane.valid
            exact run_insert_long valid fits
        | ensure heapBlock => exact absurd trivial fits
        | find heapBlock => exact absurd trivial fits

/-- Scenes with the same records in their logs bind the same. -/
theorem Retold.binds_iff {after : Scene} {later : Journal} {shadow shadow' : Image}
    (retold : Retold index scene journal shadow) (retold' : Retold index after later shadow')
    (same : journal.records = later.records) (sound : Sound scene.image scene.image.contents)
    (sound' : Sound after.image after.image.contents) (heapBlock : BlockNumber) (payload : List UInt8) :
    Binds scene.image scene.image.contents heapBlock payload ↔
      Binds after.image after.image.contents heapBlock payload := by
  have redone := retold.redone
  rw [same, retold'.redone] at redone
  obtain rfl := Option.some.inj redone
  exact ((retold.sound sound).2 heapBlock payload).symm.trans ((retold'.sound sound').2 heapBlock payload)

/-- Where the log has some of the records of a call but not the last one, it tells about an index
that binds what the service binds. -/
theorem Chronicle.exists_middle {front back : List Log.Record} {lost : Log.Record}
    (chronicle : Chronicle index service scene journal) (small : (service.perform call).2.size < 2 ^ 32)
    (room : (service.perform call).2.logBytes.length < 2 ^ 64)
    (told : (service.perform call).2.logRecords = .ok (journal.pushAll (front ++ lost :: back)).records) :
    ∃ middle shadow, Retold index middle (journal.pushAll front) shadow ∧ (journal.pushAll front).stop < 2 ^ 64 ∧
      Sound middle.image middle.image.contents ∧
      ∀ heapBlock payload, Binds middle.image middle.image.contents heapBlock payload ↔
        service.Binds heapBlock payload := by
  obtain ⟨scene', later, conducts, precedes, chronicle'⟩ := chronicle.perform call small room
  have records : later.records = _ := Except.ok.inj (chronicle'.logRecords_eq.symm.trans told)
  obtain ⟨addressing, ledger, sane⟩ := chronicle.sane
  have last : journal.records.length + front.length < later.records.length := by
    rw [records, Journal.pushAll, List.length_append, Journal.length_entries, List.length_append, List.length_cons]
    omega
  obtain ⟨middle, cut, log_eq, precedes', eq, drift⟩ :=
    conducts.exists_cut chronicle.retold.log_eq chronicle'.retold.log_eq (Nat.le_add_right _ _) last
  obtain rfl : cut = journal.pushAll front := by
    obtain ⟨start, told⟩ := cut
    obtain rfl : start = journal.start := precedes'.start_eq.symm.trans precedes.start_eq
    rw [records, Journal.take_pushAll] at eq
    exact congrArg (Journal.mk journal.start) eq
  have room' := Nat.lt_of_le_of_lt precedes'.stop_le chronicle'.room
  obtain ⟨shadow, retold⟩ := chronicle.retold.evolves drift.evolves log_eq room'
  refine ⟨middle, shadow, retold, room', drift.sound sane.sound, fun heapBlock payload => ?_⟩
  rw [drift.neutral heapBlock payload, Service.Binds, ← sane.shows.pages]

/-- Where a call is about to write a record, its pages are as the record says, and bind otherwise
what the service binds. -/
theorem Chronicle.before_write {front back : List Log.Record} {lost : Log.Record}
    {next : Option Lsn → Procedure Answer} {post : Answer → Moment → Prop} {stop : World}
    (chronicle : Chronicle index service scene journal) (small : (service.perform call).2.size < 2 ^ 32)
    (room : (service.perform call).2.logBytes.length < 2 ^ 64)
    (told : (service.perform call).2.logRecords = .ok (journal.pushAll (front ++ lost :: back)).records)
    (ensures : Ensures .solo post procedure ⟨scene, scene, accessor, []⟩)
    (reaches : procedure.Reaches (service.world accessor) front (.ask (.append lost) next) stop)
    (bounded : stop.relation.buffers.size < 2 ^ 32) :
    ∃ after, Shows stop.relation stop.logFile after ∧ after.log = some (journal.pushAll front) ∧
      (journal.pushAll front).Readable ∧ Sound after.image after.image.contents ∧
      ∀ heapBlock payload, Binds after.image after.image.contents heapBlock payload ↔
        Rebound lost.rebinds service.Binds heapBlock payload := by
  obtain ⟨middle, shadow, retold, room', sound, binds⟩ := chronicle.exists_middle small room told
  obtain ⟨addressing, ledger, sane⟩ := chronicle.sane
  obtain ⟨later, models, ensures', evolves, short, log_eq⟩ := ensures.reaches (sane.models accessor) reaches bounded
  rw [chronicle.retold.log_eq, Option.map_some] at log_eq
  obtain ⟨drafted, evolves', same, contents, effect⟩ := ensures'.drafts (evolves.sound_contents sane.sound)
  have all : Evolves .solo scene drafted := evolves.trans evolves'
  obtain ⟨shadow', retold'⟩ := chronicle.retold.evolves all (same.trans log_eq) room'
  -- the contract and the whole run know different scenes here, whose logs have the same records
  have unchanged : ∀ heapBlock payload, Binds drafted.image drafted.image.contents heapBlock payload ↔
      service.Binds heapBlock payload := fun heapBlock payload =>
    (retold'.binds_iff retold rfl (all.sound_contents sane.sound) sound
      heapBlock payload).trans (binds heapBlock payload)
  obtain rfl := Image.contents_eq effect.sound.holds
  refine ⟨later.scene, models.shows, log_eq, chronicle.readable.pushAll short, effect.sound,
    fun heapBlock payload => ?_⟩
  rw [effect.binds, funext fun heapBlock => funext fun payload => propext (unchanged heapBlock payload)]

/-- A service has one log. -/
theorem Chronicle.journal_eq {index' : String} {scene' : Scene} {journal' : Journal}
    (chronicle : Chronicle index service scene journal) (chronicle' : Chronicle index' service scene' journal') :
    journal = journal' := by
  obtain ⟨start, records⟩ := journal
  obtain rfl : start = journal'.start := chronicle.start.trans chronicle'.start.symm
  obtain rfl : records = journal'.records := Except.ok.inj (chronicle.logRecords_eq.symm.trans chronicle'.logRecords_eq)
  rfl

/-- A call whose operation keeps its contract logs what the operation writes. -/
theorem Chronicle.told_after {post : Answer → Moment → Prop} (chronicle : Chronicle index service scene journal)
    (operation : service.operation call = some (accessor, procedure))
    (ensures : Ensures .solo post procedure ⟨scene, scene, accessor, []⟩)
    (small : (service.perform call).2.size < 2 ^ 32) :
    (service.perform call).2.logRecords =
      .ok (journal.pushAll (procedure.written (service.world accessor))).records := by
  obtain ⟨addressing, ledger, sane⟩ := chronicle.sane
  rw [Service.perform_eq operation] at small ⊢
  obtain ⟨value, -, outcome, -⟩ := ensures.run (sane.models accessor) small
  obtain ⟨later, models, -, -, short, log_eq⟩ :=
    ensures.reaches (sane.models accessor) (procedure.reaches_of_run _ outcome) small
  rw [chronicle.retold.log_eq, Option.map_some] at log_eq
  exact Shows.logRecords_eq models.shows log_eq chronicle.start (chronicle.readable.pushAll short)

/-- A call ends as if the log device did not fail, or it ends where it is about to write the record
that the device does not take. -/
theorem Chronicle.perform_failing (chronicle : Chronicle index service scene journal) (call : Call)
    (small : (service.perform call).2.size < 2 ^ 32) (room : (service.perform call).2.logBytes.length < 2 ^ 64) :
    ∃ written, (service.perform call).2.logRecords = .ok (journal.pushAll written).records ∧ ∀ taken,
      (written.length ≤ taken ∧ (service.failing taken).perform call =
        ((service.perform call).1, (service.perform call).2.failing (taken - written.length))) ∨
      ∃ front lost back after, written = front ++ lost :: back ∧ front.length = taken ∧
        (service.failing taken).perform call = (some (.error (.error Relation.logDeviceFailure)), after) ∧
        after.logRecords = .ok (journal.pushAll front).records ∧ (pagesOf after.relation).Matched ∧
        ∀ heapBlock payload, after.Binds heapBlock payload ↔
          Rebound lost.rebinds service.Binds heapBlock payload := by
  obtain ⟨addressing, ledger, sane⟩ := chronicle.sane
  cases operation : service.operation call with
  | none =>
      have performed := Service.perform_none operation
      refine ⟨[], ?_, fun taken => .inl ⟨Nat.zero_le _, ?_⟩⟩
      · rw [performed, chronicle.logRecords_eq, Journal.pushAll_nil]
      · have operation : (service.failing taken).operation call = none := operation
        rw [performed, Service.perform_none operation]
        rfl
  | some entry =>
      obtain ⟨accessor, procedure⟩ := entry
      have performed := Service.perform_eq operation
      rcases sane.operation_spec operation with ensures | ⟨failure, refused⟩
      · have told := chronicle.told_after operation ensures small
        refine ⟨_, told, fun taken => ?_⟩
        have logged : (service.world accessor).relation.log ≠ none := by
          intro unlogged
          cases chronicle.retold.log_eq.symm.trans (sane.shows.unlogged.mp unlogged)
        rcases procedure.run_failing (service.world accessor) sane.shows.alone logged taken with
          ⟨fewer, run⟩ | ⟨front, lost, back, next, stop, split, length, reaches, run⟩
        · refine .inl ⟨fewer, ?_⟩
          rw [Service.perform_failing operation run, performed, Service.settle_failing]
        · refine .inr ⟨front, lost, back, _, split, length, Service.perform_failing operation run, ?_⟩
          have bounded : stop.relation.buffers.size < 2 ^ 32 := by
            have le := size_run (.ask (.append lost) next) stop
            rw [← reaches.run_eq] at le
            rw [performed] at small
            exact Nat.lt_of_le_of_lt le small
          obtain ⟨after, shows, log_eq, readable, sound, binds⟩ :=
            chronicle.before_write small room (split ▸ told) ensures reaches bounded
          refine ⟨Shows.logRecords_eq shows log_eq chronicle.start readable, ?_, fun heapBlock payload => ?_⟩
          · change (pagesOf stop.relation).Matched
            rw [shows.pages]
            exact sound.matched
          · change RangeIndex.Binds (pagesOf stop.relation) (pagesOf stop.relation).contents heapBlock payload ↔ _
            rw [shows.pages]
            exact binds heapBlock payload
      · have run := refused (service.world accessor) rfl
        refine ⟨[], ?_, fun taken => .inl ⟨Nat.zero_le _, ?_⟩⟩
        · rw [performed, run, Journal.pushAll_nil, ← chronicle.logRecords_eq]
          rfl
        · rw [Service.perform_failing operation (refused _ rfl), performed, run, ← Service.settle_failing]
          rfl

end Calls

/-- What a call leaves whose log write fails. The index is whole, and it binds what the lost record
says. Recovery of the log binds what the index bound before the call. -/
structure Service.Loses (before : Service) (records : List (Lsn × Log.Record)) (lost : Log.Record)
    (after : Service) : Prop where
  told : after.logRecords = .ok records
  matched : (pagesOf after.relation).Matched
  binds : ∀ heapBlock payload, after.Binds heapBlock payload ↔ Rebound lost.rebinds before.Binds heapBlock payload
  recovers : ∀ copy : String, ∃ replayed, replay (.empty copy none) records = (.ok (), replayed) ∧
    Sound (pagesOf replayed) (pagesOf replayed).contents ∧
    ∀ heapBlock payload, RangeIndex.Binds (pagesOf replayed) (pagesOf replayed).contents heapBlock payload ↔
      before.Binds heapBlock payload

/-- A call whose log write fails. Take an index that is created in a new relation with a new log, any
calls on it and one more, and a log device that takes some more records and fails at the next one.
When the call writes no further record, it does what it does with a device that does not fail.
Otherwise it fails with the error of the device. The index is then as if the record were logged, and
the log says that the call has changed no binding. -/
theorem perform_with_failing_log {writer : Log.Writer} {file : ByteArray} {pagesPerRange : UInt32} (name : String)
    (appendOnly : Bool) (bounds : 1 ≤ pagesPerRange.toNat ∧ pagesPerRange.toNat ≤ maxPagesPerRange)
    (fresh : writer.Fresh file) :
    ∃ service, Service.create (.empty name (some writer)) file pagesPerRange appendOnly = .ok service ∧
      ∀ calls call before after, service.run calls = before → (before.perform call).2 = after →
        after.size < 2 ^ 32 → after.logBytes.length < 2 ^ 64 →
        ∃ records added, before.logRecords = .ok records ∧ after.logRecords = .ok (records ++ added) ∧
          ∀ taken, match added[taken]? with
            | none => (before.failing taken).perform call =
                ((before.perform call).1, after.failing (taken - added.length))
            | some (_, lost) => ∃ left,
                (before.failing taken).perform call = (some (.error (.error Relation.logDeviceFailure)), left) ∧
                  before.Loses (records ++ added.take taken) lost left := by
  obtain ⟨service, created, chronicles⟩ := exists_chronicle name appendOnly bounds fresh
  refine ⟨service, created, ?_⟩
  rintro calls call before after rfl rfl small room
  have reached : ∀ copy, ∃ scene journal, Chronicle copy (service.run calls) scene journal := by
    intro copy
    obtain ⟨_, _, chronicle, -⟩ := chronicles copy
    have run : service.run (calls ++ [call]) = ((service.run calls).perform call).2 := Service.run_append _ _ _
    obtain ⟨small', room'⟩ := chronicle.room_front calls [call] (run ▸ small) (run ▸ room)
    obtain ⟨scene, journal, -, chronicle'⟩ := chronicle.run calls small' room'
    exact ⟨scene, journal, chronicle'⟩
  obtain ⟨scene, journal, chronicle⟩ := reached name
  obtain ⟨written, told, failing⟩ := chronicle.perform_failing call small room
  refine ⟨journal.records, journal.entries written, chronicle.logRecords_eq, told, fun taken => ?_⟩
  rcases failing taken with
    ⟨fewer, performed⟩ | ⟨front, lost, back, left, rfl, rfl, performed, told', matched, binds⟩
  · rw [List.getElem?_eq_none (Journal.length_entries.symm ▸ fewer), Journal.length_entries]
    exact performed
  · have at_lost : (journal.entries (front ++ lost :: back))[front.length]? =
        some ((journal.pushAll front).position lost, lost) := by
      rw [Journal.entries_append, List.getElem?_append_right (Nat.le_of_eq Journal.length_entries),
        Journal.length_entries, Nat.sub_self, Journal.entries, List.getElem?_cons_zero]
    have taken : (journal.entries (front ++ lost :: back)).take front.length = journal.entries front := by
      rw [Journal.entries_append, ← Journal.length_entries]
      exact List.take_left
    rw [at_lost, taken]
    refine ⟨left, performed, told', matched, binds, fun copy => ?_⟩
    obtain ⟨_, _, chronicle'⟩ := reached copy
    obtain rfl := chronicle.journal_eq chronicle'
    obtain ⟨middle, shadow, retold, -, sound, unchanged⟩ := chronicle'.exists_middle small room told
    obtain ⟨replayed, recovered, sound', binds'⟩ := retold.exists_replay sound
    refine ⟨replayed, recovered, sound', fun heapBlock payload => ?_⟩
    exact (binds' heapBlock payload).trans (unchanged heapBlock payload)

end RangeIndex

end Warehouse
