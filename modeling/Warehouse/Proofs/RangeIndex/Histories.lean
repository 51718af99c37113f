import Warehouse.Proofs.RangeIndex.Refinement
import Warehouse.Proofs.RangeIndex.Retelling

/-! # Histories of logged indexes

Every step of an index adds a record to its log or leaves the log alone. Hence every prefix of
the records is the log of some scene that the index went through, also when the prefix ends
amid the records of one call. `Chronicle` says of a service that its log holds nothing but the
records of its scene and tells about all pages; `Chronicle.perform` says that a call keeps this
up, and `Chronicle.run` that calls do. -/

namespace Warehouse.RangeIndex

/-! ## Logs of evolving scenes -/

section Journals

variable {mode : Mode} {scene after : Scene} {contents contents' : Metapage} {record : Log.Record}
  {pages : List (BlockNumber × Page)} {journal later last : Journal} {block : BlockNumber} {page page' : Page}

/-- A tuple that was stored on a regular page is short. -/
theorem short_of_stored {offset : Nat} {tuple : List UInt8} (regular : Regular page)
    (stored : page.Stored offset tuple page') : tuple.length < 2 ^ 15 := by
  have after := regular.of_frame stored.packed stored.frame
  exact Nat.lt_of_le_of_lt (after.length_le stored.itemAt_same) (by decide)

theorem Change.short (change : Change mode scene contents record pages contents') : record.Short := by
  cases change with
  | extendPlain => exact (by decide : 0 < 2 ^ 15)
  | extendChain => exact (by decide : 0 < 2 ^ 15)
  | insert start decoded covered site added stored => exact short_of_stored site.regular stored
  | update start decoded covered at_old regular removed deleted ne site added stored =>
      exact short_of_stored site.regular stored
  | desummarize => exact (by decide : 0 < 2 ^ 15)

namespace Journal

/-- The later log goes on where the earlier one ended. -/
structure Precedes (journal later : Journal) : Prop where
  start_eq : later.start = journal.start
  records : journal.records <+: later.records

/-- The records can be read back from the bytes of the log. -/
structure Readable (journal : Journal) : Prop where
  aligned : Log.Aligned journal.start journal.records
  short : ∀ entry ∈ journal.records, entry.2.Short

theorem Precedes.refl (journal : Journal) : journal.Precedes journal := ⟨rfl, List.prefix_rfl⟩

theorem Precedes.trans (h : journal.Precedes later) (h' : later.Precedes last) : journal.Precedes last :=
  ⟨h'.start_eq.trans h.start_eq, h.records.trans h'.records⟩

theorem precedes_push (journal : Journal) (record : Log.Record) : journal.Precedes (journal.push record) :=
  ⟨rfl, List.prefix_append _ _⟩

theorem Precedes.stop_le (h : journal.Precedes later) : journal.stop ≤ later.stop := by
  obtain ⟨rest, eq⟩ := h.records
  rw [stop_eq, stop_eq, h.start_eq, ← eq, Log.framesOf_append, List.length_append]
  omega

theorem Precedes.length_le (h : journal.Precedes later) : journal.records.length ≤ later.records.length :=
  h.records.length_le

theorem Precedes.eq_of_length_le (h : journal.Precedes later) (le : later.records.length ≤ journal.records.length) :
    journal = later := by
  have records := h.records.eq_of_length_le le
  have start := h.start_eq
  obtain ⟨start', records'⟩ := later
  obtain ⟨start'', records''⟩ := journal
  simp only at records start
  rw [records, start]

theorem Readable.push (readable : journal.Readable) (short : record.Short) : (journal.push record).Readable where
  aligned := by
    refine Log.aligned_append.mpr ⟨readable.aligned, ?_, trivial⟩
    exact congrArg UInt64.ofNat (by rw [stop_eq]; rfl)
  short entry mem := by
    rcases List.mem_append.mp mem with old | new
    · exact readable.short entry old
    · rw [List.mem_singleton.mp new]
      exact short

end Journal

/-- A step adds a record to the log or leaves it alone. -/
theorem Advance.log (step : Advance mode scene after) (log_eq : scene.log = some journal) :
    after.log = some journal ∨ ∃ record, record.Short ∧ after.log = some (journal.push record) := by
  cases step with
  | grow => exact .inl log_eq
  | format => exact .inl log_eq
  | flag => exact .inl log_eq
  | commit sound change =>
      refine .inr ⟨_, change.short, ?_⟩
      rw [Scene.commit, log_eq, Option.map_some]

/-- A step that adds no record changes neither the range map nor entries nor tuples. -/
theorem Advance.quiet (step : Advance mode scene after) (sound : Sound scene.image contents)
    (log_eq : scene.log = some journal) (same : after.log = some journal) : Quiet scene.image after.image := by
  cases step with
  | grow room => exact sound.shape.quiet_grow room
  | format first at_block => exact sound.shape.quiet_format first at_block
  | flag at_block regular => exact sound.shape.quiet_flag at_block regular
  | commit sound' change =>
      rw [Scene.commit, log_eq, Option.map_some] at same
      have length := congrArg (fun journal => journal.records.length) (Option.some.inj same)
      simp only [Journal.push, List.length_append, List.length_singleton] at length
      omega

/-- A step adds at most one record. -/
theorem Advance.precedes (step : Advance mode scene after) (log_eq : scene.log = some journal)
    (log_eq' : after.log = some later) :
    journal.Precedes later ∧ later.records.length ≤ journal.records.length + 1 := by
  rcases step.log log_eq with same | ⟨record, -, pushed⟩
  · obtain rfl := Option.some.inj (same.symm.trans log_eq')
    exact ⟨.refl _, Nat.le_succ _⟩
  · obtain rfl := Option.some.inj (pushed.symm.trans log_eq')
    refine ⟨journal.precedes_push record, Nat.le_of_eq ?_⟩
    rw [Journal.push, List.length_append, List.length_singleton]

variable {steps : Scene → Scene → Prop} (advances : ∀ scene after, steps scene after → Advance mode scene after)

include advances

/-- A log is only ever added to. -/
theorem exists_later_log (evolves : Relation.ReflTransGen steps scene after) (log_eq : scene.log = some journal) :
    ∃ later, after.log = some later ∧ journal.Precedes later ∧ (journal.Readable → later.Readable) := by
  induction evolves with
  | refl => exact ⟨journal, log_eq, .refl journal, id⟩
  | tail _ step ih =>
      obtain ⟨middle, log_eq', precedes, readable⟩ := ih
      rcases (advances _ _ step).log log_eq' with same | ⟨record, short, pushed⟩
      · exact ⟨middle, same, precedes, readable⟩
      · exact ⟨_, pushed, precedes.trans (middle.precedes_push record), fun h => (readable h).push short⟩

/-- Steps that add no records change neither the range map nor entries nor tuples. -/
theorem quiet_of_log (evolves : Relation.ReflTransGen steps scene after) (sound : Sound scene.image contents)
    (log_eq : scene.log = some journal) (log_eq' : after.log = some later)
    (none : later.records.length ≤ journal.records.length) : Quiet scene.image after.image := by
  induction evolves generalizing later with
  | refl => exact sound.shape.quiet_refl
  | tail evolves step ih =>
      obtain ⟨middle, log_middle, precedes, -⟩ := exists_later_log advances evolves log_eq
      have precedes' := ((advances _ _ step).precedes log_middle log_eq').1
      have quiet := ih log_middle (Nat.le_trans precedes'.length_le none)
      have same : middle = later := precedes'.eq_of_length_le (Nat.le_trans none precedes.length_le)
      exact quiet.trans ((advances _ _ step).quiet (quiet.sound sound) log_middle (same ▸ log_eq'))

/-- Every prefix of the records that are added to a log is the log of a scene on the way. -/
theorem exists_cut (evolves : Relation.ReflTransGen steps scene after) (log_eq : scene.log = some journal)
    (log_eq' : after.log = some later) {count : Nat} (first : journal.records.length ≤ count)
    (last : count ≤ later.records.length) :
    ∃ middle cut, middle.log = some cut ∧ cut.Precedes later ∧ cut.records = later.records.take count ∧
      Relation.ReflTransGen steps scene middle := by
  induction evolves generalizing later with
  | refl =>
      obtain rfl := Option.some.inj (log_eq.symm.trans log_eq')
      refine ⟨scene, journal, log_eq, .refl journal, ?_, .refl⟩
      rw [List.take_of_length_le first]
  | tail evolves step ih =>
      obtain ⟨before, log_before, -, -⟩ := exists_later_log advances evolves log_eq
      obtain ⟨precedes, one⟩ := (advances _ _ step).precedes log_before log_eq'
      by_cases inside : count ≤ before.records.length
      · obtain ⟨middle, cut, log_cut, precedes', eq, evolves'⟩ := ih log_before inside
        obtain ⟨rest, eq'⟩ := precedes.records
        refine ⟨middle, cut, log_cut, precedes'.trans precedes, ?_, evolves'⟩
        rw [eq, ← eq', List.take_append_of_le_length inside]
      · refine ⟨_, later, log_eq', .refl later, ?_, evolves.tail step⟩
        rw [List.take_of_length_le (by omega)]

end Journals

/-- The log tells about a scene what it told before, and about the changes since. -/
theorem Retold.evolves {index : String} {scene after : Scene} {journal later : Journal} {shadow : Image}
    (retold : Retold index scene journal shadow) (evolves : Evolves .solo scene after) (log_eq : after.log = some later)
    (room : later.stop < 2 ^ 64) : ∃ shadow', Retold index after later shadow' := by
  induction evolves generalizing later with
  | refl =>
      obtain rfl := Option.some.inj (retold.log_eq.symm.trans log_eq)
      exact ⟨shadow, retold⟩
  | tail evolves step ih =>
      obtain ⟨before, log_before, -, -⟩ := exists_later_log (fun _ _ => id) evolves retold.log_eq
      have room' := Nat.lt_of_le_of_lt (step.precedes log_before log_eq).1.stop_le room
      obtain ⟨shadow', retold'⟩ := ih log_before room'
      rcases retold'.advance step with same | ⟨contents, contents', record, pages, sound, change, rfl⟩
      · obtain rfl := Option.some.inj (same.log_eq.symm.trans log_eq)
        exact ⟨shadow', same⟩
      · obtain rfl : before.push record = later := by
          rw [Scene.commit, log_before] at log_eq
          exact Option.some.inj log_eq
        obtain ⟨shadow'', -, retold''⟩ := retold'.commit sound change (change.founded log_before room') room
        exact ⟨shadow'', retold''⟩

/-! ## Services with a log of their own -/

namespace Service

/-- The bytes of the log. -/
def logBytes (service : Service) : List UInt8 :=
  service.relation.log.elim [] fun writer => writer.contents service.logFile

/-- The records of the log. -/
def logRecords (service : Service) : Except Failure (List (Lsn × Log.Record)) :=
  Log.decodeLog service.logBytes

/-- The number of records of the log. -/
def recordCount (service : Service) : Nat := service.logRecords.toOption.elim 0 List.length

end Service

/-- The log of the service holds the records of its scene and nothing else, and tells about all
of its pages. -/
structure Chronicle (index : String) (service : Service) (scene : Scene) (journal : Journal) : Prop where
  sane : ∃ addressing ledger, Sane service scene addressing ledger
  start : journal.start = 0
  readable : journal.Readable
  retold : Retold index scene journal scene.image
  room : journal.stop < 2 ^ 64

section Chronicles

variable {index : String} {service : Service} {scene : Scene} {journal : Journal} {addressing : Addressing}
  {ledger : Ledger}

/-- The log of a service ends with the frames of its scene. -/
theorem Shows.logBytes_eq (shows : Shows service.relation service.logFile scene) (log_eq : scene.log = some journal) :
    ∃ front, front.length = journal.start ∧ service.logBytes = front ++ Log.framesOf journal.records := by
  cases log : service.relation.log with
  | none => cases log_eq.symm.trans (shows.unlogged.mp log)
  | some writer =>
      rw [Service.logBytes, log]
      exact (shows.logged writer journal log log_eq).contents

theorem Shows.length_logBytes (shows : Shows service.relation service.logFile scene)
    (log_eq : scene.log = some journal) :
    service.logBytes.length = journal.stop := by
  obtain ⟨front, length, eq⟩ := shows.logBytes_eq log_eq
  rw [eq, List.length_append, length, Journal.stop_eq]

theorem Sane.length_logBytes (sane : Sane service scene addressing ledger) (log_eq : scene.log = some journal) :
    service.logBytes.length = journal.stop := sane.shows.length_logBytes log_eq

/-- A log of one's own is read as the records of the scene. -/
theorem Shows.logRecords_eq (shows : Shows service.relation service.logFile scene) (log_eq : scene.log = some journal)
    (start : journal.start = 0) (readable : journal.Readable) : service.logRecords = .ok journal.records := by
  obtain ⟨front, length, eq⟩ := shows.logBytes_eq log_eq
  obtain rfl := List.length_eq_zero_iff.mp (length.trans start)
  have aligned := readable.aligned
  rw [start] at aligned
  rw [Service.logRecords, eq, List.nil_append]
  exact Log.decodeLog_framesOf aligned fun entry mem => (readable.short entry mem).fits

/-- Calls only ever add to the log. -/
theorem Sane.length_logBytes_le (sane : Sane service scene addressing ledger) (log_eq : scene.log = some journal)
    (calls : List Call) (room : (service.run calls).size < 2 ^ 32) :
    service.logBytes.length ≤ (service.run calls).logBytes.length := by
  obtain ⟨scene', evolves, sane'⟩ := sane.run calls room
  obtain ⟨later, log_eq', precedes, -⟩ := exists_later_log (fun _ _ => id) evolves log_eq
  rw [sane.length_logBytes log_eq, sane'.length_logBytes log_eq']
  exact precedes.stop_le

namespace Chronicle

theorem logRecords_eq (chronicle : Chronicle index service scene journal) :
    service.logRecords = .ok journal.records := by
  obtain ⟨addressing, ledger, sane⟩ := chronicle.sane
  exact sane.shows.logRecords_eq chronicle.retold.log_eq chronicle.start chronicle.readable

theorem recordCount_eq (chronicle : Chronicle index service scene journal) :
    service.recordCount = journal.records.length := by
  rw [Service.recordCount, chronicle.logRecords_eq]
  rfl

/-- The log tells about the pages of the service. -/
theorem redoLog_eq (chronicle : Chronicle index service scene journal) :
    Recovery.redoLog index journal.records #[] = some (pagesOf service.relation) := by
  obtain ⟨addressing, ledger, sane⟩ := chronicle.sane
  rw [sane.shows.pages]
  exact chronicle.retold.redone

/-- A call adds the records of what it does to the log. -/
theorem perform (chronicle : Chronicle index service scene journal) (call : Call)
    (small : (service.perform call).2.size < 2 ^ 32) (room : (service.perform call).2.logBytes.length < 2 ^ 64) :
    ∃ scene' journal', Conducts scene scene' ∧ journal.Precedes journal' ∧
      Chronicle index (service.perform call).2 scene' journal' := by
  obtain ⟨addressing, ledger, sane⟩ := chronicle.sane
  obtain ⟨-, scene', conducts, sane'⟩ := sane.perform call small
  have evolves := conducts.evolves sane.sound
  obtain ⟨journal', log_eq, precedes, readable⟩ := exists_later_log (fun _ _ => id) evolves chronicle.retold.log_eq
  rw [sane'.length_logBytes log_eq] at room
  obtain ⟨shadow, retold⟩ := chronicle.retold.evolves evolves log_eq room
  obtain rfl := retold.shadow_eq sane'.sound.shape.small room sane'.clean
  exact ⟨scene', journal', conducts, precedes, ⟨_, _, sane'⟩, precedes.start_eq.trans chronicle.start,
    readable chronicle.readable, retold, room⟩

/-- What all calls have room for, the first of them have room for. -/
theorem room_front (chronicle : Chronicle index service scene journal) (front back : List Call)
    (small : (service.run (front ++ back)).size < 2 ^ 32)
    (room : (service.run (front ++ back)).logBytes.length < 2 ^ 64) :
    (service.run front).size < 2 ^ 32 ∧ (service.run front).logBytes.length < 2 ^ 64 := by
  obtain ⟨addressing, ledger, sane⟩ := chronicle.sane
  rw [Service.run_append] at small room
  have small' := Nat.lt_of_le_of_lt ((service.run front).size_run_le back) small
  obtain ⟨scene', evolves, sane'⟩ := sane.run front small'
  obtain ⟨journal', log_eq, -⟩ := exists_later_log (fun _ _ => id) evolves chronicle.retold.log_eq
  exact ⟨small', Nat.lt_of_le_of_lt (sane'.length_logBytes_le log_eq back small) room⟩

/-- Calls add the records of what they do to the log. -/
theorem run (chronicle : Chronicle index service scene journal) (calls : List Call)
    (small : (service.run calls).size < 2 ^ 32) (room : (service.run calls).logBytes.length < 2 ^ 64) :
    ∃ scene' journal', journal.Precedes journal' ∧ Chronicle index (service.run calls) scene' journal' := by
  induction calls generalizing service scene journal with
  | nil => exact ⟨scene, journal, .refl journal, chronicle⟩
  | cons call calls ih =>
      obtain ⟨small', room'⟩ := chronicle.room_front [call] calls small room
      obtain ⟨middle, cut, -, precedes, chronicle'⟩ := chronicle.perform call small' room'
      obtain ⟨scene', journal', precedes', chronicle''⟩ := ih chronicle' small room
      exact ⟨scene', journal', precedes.trans precedes', chronicle''⟩

end Chronicle

end Chronicles

end Warehouse.RangeIndex
