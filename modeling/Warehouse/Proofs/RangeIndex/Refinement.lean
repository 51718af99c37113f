import Warehouse.Proofs.RangeIndex.Demands

/-! # An index refines a finite map

Creating an index gives a sane service, and every call leaves it sane. So whatever calls are
made, in whatever order and through whatever accessors, the index binds what the finite map
of the calls says, every call ends, and a current accessor finds what is bound. -/

namespace Warehouse.RangeIndex

namespace Service

/-- A call adds pages or none. -/
theorem size_perform (service : Service) (call : Call) : service.size ≤ (service.perform call).2.size := by
  cases call with
  | openAccessor =>
      have size := size_run (openIndex service.relation.name) (service.world .unopened)
      rw [perform]
      split <;> rename_i eq <;> rw [eq] at size <;> exact size
  | use number use =>
      rw [perform]
      split
      · exact Nat.le_refl _
      · rename_i accessor _
        exact size_run use.procedure (service.world accessor)
  | desummarize heapBlock =>
      exact size_run (RangeIndex.desummarize Session.rounds service.relation.name heapBlock) (service.world .unopened)

theorem run_append (service : Service) (calls later : List Call) :
    service.run (calls ++ later) = (service.run calls).run later :=
  List.foldl_append

theorem size_run_le (service : Service) (calls : List Call) : service.size ≤ (service.run calls).size := by
  induction calls generalizing service with
  | nil => exact Nat.le_refl _
  | cons call calls ih => exact Nat.le_trans (service.size_perform call) (ih _)

end Service

/-- The ledger of calls on a new index. -/
def ledgerOf (addressing : Addressing) (calls : List Call) : Ledger :=
  calls.foldl (Ledger.after addressing) .empty

/-- The log of a relation before an index is created in it. -/
def Journal.ofWriter (writer : Log.Writer) : Journal := ⟨writer.position, []⟩

section Creating

variable {name : String} {log : Option Log.Writer} {file : ByteArray} {pagesPerRange : UInt32} {appendOnly : Bool}

/-- Creating an index adds one page. -/
theorem size_create (name : String) (log : Option Log.Writer) (file : ByteArray) (appendOnly : Bool)
    (bounds : 1 ≤ pagesPerRange.toNat ∧ pagesPerRange.toNat ≤ maxPagesPerRange) :
    ((create name pagesPerRange appendOnly).run
      ⟨.empty name log, file, .unopened, []⟩).2.relation.buffers.size = 1 := by
  have allowed : ¬ (pagesPerRange = 0 ∨ maxPagesPerRange < pagesPerRange.toNat) := by
    rw [not_or]
    refine ⟨fun zero => ?_, Nat.not_lt.mpr bounds.2⟩
    rw [zero] at bounds
    exact absurd bounds.1 (by decide)
  simp only [create, if_neg allowed]
  cases log with
  | none => rfl
  | some writer => cases writer <;> rfl

/-- An empty relation with a log that nobody else writes to. -/
theorem shows_empty (at_end : ∀ writer, log = some writer → writer.AtEnd file) :
    Shows (.empty name log) file ⟨#[], log.map Journal.ofWriter⟩ where
  alone := rfl
  pages := Array.map_empty
  unlogged := Option.map_eq_none_iff.symm
  logged writer journal eq eq' := by
    obtain rfl : log = some writer := eq
    obtain rfl := Option.some.inj eq'
    refine ⟨rfl, writer.contents file, (at_end writer rfl).symm, ?_⟩
    exact (List.append_nil _).symm

/-- A new service is sane, and its ledger is empty. -/
theorem exists_created (name : String) (appendOnly : Bool)
    (bounds : 1 ≤ pagesPerRange.toNat ∧ pagesPerRange.toNat ≤ maxPagesPerRange)
    (at_end : ∀ writer, log = some writer → writer.AtEnd file) :
    ∃ service, Service.create (.empty name log) file pagesPerRange appendOnly = .ok service ∧
      Sane service (.created pagesPerRange appendOnly (log.map Journal.ofWriter))
        ⟨pagesPerRange, appendOnly⟩ .empty := by
  have valid : (Metapage.new pagesPerRange appendOnly).addressing.Valid := ⟨bounds.1, bounds.2⟩
  have models : Models ⟨.empty name log, file, .unopened, []⟩
      ⟨⟨#[], log.map Journal.ofWriter⟩, ⟨#[], log.map Journal.ofWriter⟩, .unopened, []⟩ :=
    ⟨shows_empty at_end, rfl, rfl⟩
  have contract : Ensures .solo _ (create name pagesPerRange appendOnly)
      ⟨⟨#[], log.map Journal.ofWriter⟩, ⟨#[], log.map Journal.ofWriter⟩, .unopened, []⟩ :=
    create_spec valid rfl rfl rfl
  have size := size_create name log file appendOnly bounds
  have run := contract.run models
  cases performed : (create name pagesPerRange appendOnly).run ⟨.empty name log, file, .unopened, []⟩ with
  | mk outcome world =>
      rw [performed] at size run
      obtain ⟨⟨⟩, later, rfl, models', -, -, scene⟩ := run (by rw [size]; decide)
      refine ⟨⟨world.relation, world.logFile, []⟩, ?_, ?_⟩
      · rw [Service.create, show (Relation.empty name log).name = name from rfl, performed]
      · have scene : later.scene = .created pagesPerRange appendOnly (log.map Journal.ofWriter) := scene
        have shows := models'.shows
        rw [scene] at shows
        refine ⟨shows, sound_created valid, gapless_created, not_loose_created, ?_, fun heapBlock payload => ?_,
          fun _ mem => absurd mem List.not_mem_nil, rfl, fun number _ at_number => (by cases at_number)⟩
        · rw [contents_created]
          rfl
        · exact ⟨fun bound => absurd bound (not_binds_created heapBlock payload), fun none => (by cases none)⟩

/-- The service of a new index is sane, and its ledger is empty. -/
theorem sane_of_create {service : Service}
    (bounds : 1 ≤ pagesPerRange.toNat ∧ pagesPerRange.toNat ≤ maxPagesPerRange)
    (at_end : ∀ writer, log = some writer → writer.AtEnd file)
    (created : Service.create (.empty name log) file pagesPerRange appendOnly = .ok service) :
    Sane service (.created pagesPerRange appendOnly (log.map Journal.ofWriter)) ⟨pagesPerRange, appendOnly⟩ .empty := by
  obtain ⟨service', created', sane⟩ := exists_created name appendOnly bounds at_end
  obtain rfl := Except.ok.inj (created'.symm.trans created)
  exact sane

/-- A new index has one page. -/
theorem size_of_create {service : Service}
    (bounds : 1 ≤ pagesPerRange.toNat ∧ pagesPerRange.toNat ≤ maxPagesPerRange)
    (at_end : ∀ writer, log = some writer → writer.AtEnd file)
    (created : Service.create (.empty name log) file pagesPerRange appendOnly = .ok service) : service.size = 1 := by
  have sane := sane_of_create bounds at_end created
  rw [Service.size, ← size_pagesOf, sane.shows.pages, size_created]

/-- Calls on a new index have room as far as they demand no more. -/
theorem size_run_of_create {service : Service} {limit : Nat}
    (bounds : 1 ≤ pagesPerRange.toNat ∧ pagesPerRange.toNat ≤ maxPagesPerRange)
    (at_end : ∀ writer, log = some writer → writer.AtEnd file)
    (created : Service.create (.empty name log) file pagesPerRange appendOnly = .ok service) (calls : List Call)
    (small : limit ≤ 2 ^ 32) (demand : 1 + (calls.map (Call.demand ⟨pagesPerRange, appendOnly⟩)).sum < limit) :
    (service.run calls).size < limit := by
  have one := size_of_create bounds at_end created
  have grows := (sane_of_create bounds at_end created).takes_calls calls (by omega)
  have size : (service.run calls).size ≤ service.size + _ := grows.size_le
  omega

end Creating

/-- After any calls the service is sane, and its ledger is that of the calls. -/
theorem Sane.run {service : Service} {scene : Scene} {addressing : Addressing} {ledger : Ledger} {telling : Telling}
    (sane : Sane service scene addressing ledger telling) (calls : List Call)
    (room : (service.run calls).size < 2 ^ 32) :
    ∃ scene', Evolves .solo scene scene' ∧
      Sane (service.run calls) scene' addressing (calls.foldl (Ledger.after addressing) ledger) telling := by
  induction calls generalizing service scene ledger with
  | nil => exact ⟨scene, .refl, sane⟩
  | cons call calls ih =>
      have room' := Nat.lt_of_le_of_lt ((service.perform call).2.size_run_le calls) room
      obtain ⟨-, middle, conducts, sane'⟩ := sane.perform call room'
      obtain ⟨after, evolves, sane''⟩ := ih sane' room
      exact ⟨after, (conducts.evolves sane.sound).trans evolves, sane''⟩

/-- After any calls the index binds what the ledger of the calls says. -/
theorem Sane.binds_run {service : Service} {scene : Scene} {addressing : Addressing} {ledger : Ledger}
    {telling : Telling} (sane : Sane service scene addressing ledger telling) (calls : List Call)
    (room : (service.run calls).size < 2 ^ 32) (heapBlock : BlockNumber) (payload : List UInt8) :
    (service.run calls).Binds heapBlock payload ↔
      (calls.foldl (Ledger.after addressing) ledger).bindings heapBlock = some payload := by
  obtain ⟨scene', -, sane'⟩ := sane.run calls room
  rw [Service.Binds, sane'.shows.pages]
  exact sane'.binds heapBlock payload

/-- An index refines a finite map from ranges to payloads. After any calls, through any
accessors, it binds what the calls say, and whatever is called next comes to what it should:
every call ends, storing a summary fails only if no page has room for it, removing one
succeeds, and a current accessor finds what the range is bound to. -/
theorem calls_refine_ledger {log : Option Log.Writer} {file : ByteArray} {pagesPerRange : UInt32} (name : String)
    (appendOnly : Bool) (bounds : 1 ≤ pagesPerRange.toNat ∧ pagesPerRange.toNat ≤ maxPagesPerRange)
    (at_end : ∀ writer, log = some writer → writer.AtEnd file) :
    ∃ service, Service.create (.empty name log) file pagesPerRange appendOnly = .ok service ∧
      ∀ calls, (service.run calls).size < 2 ^ 32 - 1 →
        (∀ heapBlock payload, (service.run calls).Binds heapBlock payload ↔
          (ledgerOf ⟨pagesPerRange, appendOnly⟩ calls).bindings heapBlock = some payload) ∧
        ∀ call, ((service.run calls).perform call).2.size < 2 ^ 32 - 1 →
          (ledgerOf ⟨pagesPerRange, appendOnly⟩ calls).Accepts ⟨pagesPerRange, appendOnly⟩ call
            ((service.run calls).perform call).1 := by
  obtain ⟨service, created, sane⟩ := exists_created name appendOnly bounds at_end
  refine ⟨service, created, fun calls room => ⟨sane.binds_run calls (by omega), fun call room' => ?_⟩⟩
  obtain ⟨scene, -, sane'⟩ := sane.run calls (by omega)
  exact (sane'.perform call (by omega)).1

/-- A user stores two summaries of the same range, the second one in place of the first. Another user
opens the index afterwards and finds the second one, and then it is removed. -/
theorem calls_refine_ledger_replaced : ∃ service last found,
    Service.create (.empty "index" none) .empty 1 false = .ok service ∧
      last = service.run [.openAccessor, .use 0 (.insert 3 [7]), .use 0 (.insert 3 [8]), .openAccessor] ∧
      (∀ payload, last.Binds 3 payload ↔ payload = [8]) ∧
      (last.perform (.use 1 (.find 3))).1 = some (.ok (.found (some found))) ∧ found.summary = ⟨3, [8]⟩ ∧
      (last.perform (.desummarize 3)).1 = some (.ok (.removed true)) := by
  have bounds : 1 ≤ (1 : UInt32).toNat ∧ (1 : UInt32).toNat ≤ maxPagesPerRange := by decide
  have at_end : ∀ writer : Log.Writer, none = some writer → writer.AtEnd .empty := nofun
  obtain ⟨service, created, follows⟩ := calls_refine_ledger "index" false bounds at_end
  let calls : List Call := [.openAccessor, .use 0 (.insert 3 [7]), .use 0 (.insert 3 [8]), .openAccessor]
  have room : ∀ more : List Call, 1 + ((calls ++ more).map (Call.demand ⟨1, false⟩)).sum < 2 ^ 32 - 1 →
      (service.run (calls ++ more)).size < 2 ^ 32 - 1 :=
    fun more => size_run_of_create bounds at_end created (calls ++ more) (by decide)
  obtain ⟨binds, accepts⟩ := follows calls (room [] (by decide))
  obtain ⟨_, answered, found, rfl, current⟩ := accepts (.use 1 (.find 3)) (room [.use 1 (.find 3)] (by decide))
  have removed := accepts (.desummarize 3) (room [.desummarize 3] (by decide))
  have expected : found.map FoundSummary.summary = some ⟨3, [8]⟩ := current rfl
  obtain ⟨found, rfl, summary⟩ := Option.map_eq_some_iff.mp expected
  refine ⟨service, service.run calls, found, created, rfl, fun payload => ?_, answered, summary, removed⟩
  exact (binds 3 payload).trans ⟨fun bound => (Option.some.inj bound).symm, fun eq => congrArg some eq.symm⟩

end Warehouse.RangeIndex
