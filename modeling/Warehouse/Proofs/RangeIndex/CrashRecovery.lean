import Warehouse.Proofs.RangeIndex.Histories

/-! # Recovering an index

The log of an index suffices to get the index back. `replay_mixed_pages` starts recovery from
the pages that happened to be written back, each as it was after some call of the run, and
ends with the pages of the index. `replay_prefix_binds` starts it from no pages but stops after
any number of records, and ends with an index that binds what the index bound between two
calls: a call whose records were not all kept has changed no binding. -/

namespace Warehouse

namespace RangeIndex

open Recovery

section Chronicles

variable {index : String} {service : Service} {scene : Scene} {journal : Journal} {calls : List Call}
  {records : List (Lsn × Log.Record)}

/-- A new service with a log of its own. -/
theorem exists_chronicle_created {writer : Log.Writer} {file : ByteArray} {pagesPerRange : UInt32} (name : String)
    (appendOnly : Bool) (bounds : 1 ≤ pagesPerRange.toNat ∧ pagesPerRange.toNat ≤ maxPagesPerRange)
    (fresh : writer.Fresh file) :
    ∃ service, Service.create (.empty name (some writer)) file pagesPerRange appendOnly = .ok service ∧
      ∀ index, Chronicle index service (.created pagesPerRange appendOnly (some (.ofWriter writer)))
        ((Journal.ofWriter writer).push (.createIndex pagesPerRange appendOnly)) := by
  obtain ⟨service, created, sane⟩ := exists_created name appendOnly bounds fresh.atEnd_of_some_eq
  refine ⟨service, created, fun index => ?_⟩
  have start : (Journal.ofWriter writer).start = 0 := fresh.position
  have short : (Log.Record.createIndex pagesPerRange appendOnly).Short := (by decide : 0 < 2 ^ 15)
  have room : ((Journal.ofWriter writer).push (.createIndex pagesPerRange appendOnly)).stop < 2 ^ 64 := by
    have body : _ ≤ Log.maxBodyLength := short.fits
    rw [Journal.stop_push, Journal.stop_eq, start, Log.length_encodeFrame]
    simp only [Journal.ofWriter, Log.framesOf, List.flatMap_nil, List.length_nil, Log.frameOverhead]
    simp only [Log.maxBodyLength] at body
    omega
  have readable : (Journal.ofWriter writer).Readable := ⟨trivial, fun _ mem => absurd mem List.not_mem_nil⟩
  obtain ⟨shadow, retold⟩ := Retold.created index pagesPerRange appendOnly
    (show (Journal.ofWriter writer).records = [] from rfl) room
  obtain rfl := retold.shadow_eq sane.sound.shape.small room sane.clean
  exact ⟨⟨_, _, sane⟩, start, readable.push short, retold, room⟩

/-- Its log has one record. -/
theorem exists_chronicle {writer : Log.Writer} {file : ByteArray} {pagesPerRange : UInt32} (name : String)
    (appendOnly : Bool) (bounds : 1 ≤ pagesPerRange.toNat ∧ pagesPerRange.toNat ≤ maxPagesPerRange)
    (fresh : writer.Fresh file) :
    ∃ service, Service.create (.empty name (some writer)) file pagesPerRange appendOnly = .ok service ∧
      ∀ index, ∃ scene journal, Chronicle index service scene journal ∧ journal.records.length = 1 := by
  obtain ⟨service, created, chronicle⟩ := exists_chronicle_created name appendOnly bounds fresh
  exact ⟨service, created, fun index => ⟨_, _, chronicle index, rfl⟩⟩

/-- The log can be read after any calls. -/
theorem Chronicle.exists_logRecords (chronicle : Chronicle index service scene journal) (calls : List Call)
    (small : (service.run calls).size < 2 ^ 32) (room : (service.run calls).logBytes.length < 2 ^ 64) :
    ∃ records, (service.run calls).logRecords = .ok records := by
  obtain ⟨_, journal', -, chronicle'⟩ := chronicle.run calls small room
  exact ⟨journal'.records, chronicle'.logRecords_eq⟩

/-! ## Pages of different ages -/

/-- Every page of the relation is one of zeros, or it is that of the service after some of the
calls. -/
def Service.Leaves (service : Service) (calls : List Call) (relation : Relation) : Prop :=
  ∀ block page, relation.page? block = some page → page = .zero ∨ ∃ front back, calls = front ++ back ∧
    (pagesOf (service.run front).relation).page? block = some page

/-- The pages after some of the calls are pages that the log tells about. -/
theorem Chronicle.aged (chronicle : Chronicle index service scene journal) {front back : List Call}
    (small : (service.run (front ++ back)).size < 2 ^ 32)
    (room : (service.run (front ++ back)).logBytes.length < 2 ^ 64)
    (told : (service.run (front ++ back)).logRecords = .ok records) (block : BlockNumber) :
    Aged index block records #[] ((pagesOf (service.run front).relation).pageAt block) := by
  obtain ⟨small', room'⟩ := chronicle.room_front front back small room
  rw [Service.run_append] at small room told
  obtain ⟨middle, cut, -, chronicle'⟩ := chronicle.run front small' room'
  obtain ⟨after, journal', precedes, chronicle''⟩ := chronicle'.run back small room
  obtain rfl : journal'.records = records := Except.ok.inj (chronicle''.logRecords_eq.symm.trans told)
  obtain ⟨rest, eq⟩ := precedes.records
  rw [← eq]
  exact aged_of_redoLog chronicle'.redoLog_eq

/-- A relation of which every page is as old as the log or some call is brought up to date. -/
theorem Chronicle.redoLog_mixed {relation : Relation} (chronicle : Chronicle relation.name service scene journal)
    (small : (service.run calls).size < 2 ^ 32) (room : (service.run calls).logBytes.length < 2 ^ 64)
    (told : (service.run calls).logRecords = .ok records) (leaves : service.Leaves calls relation)
    (size : relation.buffers.size ≤ (service.run calls).size) :
    redoLog relation.name records (pagesOf relation) = some (pagesOf (service.run calls).relation) := by
  obtain ⟨after, journal', -, chronicle'⟩ := chronicle.run calls small room
  obtain rfl : journal'.records = records := Except.ok.inj (chronicle'.logRecords_eq.symm.trans told)
  refine redoLog_restart chronicle'.retold.apart chronicle'.redoLog_eq ?_ (fun block => ?_) ?_
  · rw [size_pagesOf]
    exact Nat.le_of_lt small
  · have zero : Aged relation.name block journal'.records #[] .zero := .here
    cases at_block : relation.page? block with
    | none =>
        rw [Image.pageAt, page?_pagesOf, at_block]
        exact zero
    | some page =>
        rw [Image.pageAt, page?_pagesOf, at_block]
        rcases leaves block page at_block with rfl | ⟨front, back, rfl, at_front⟩
        · exact zero
        · have aged := chronicle.aged small room told block
          rw [Image.pageAt_of_page? at_front] at aged
          exact aged
  · rw [size_pagesOf, size_pagesOf]
    exact size

end Chronicles

/-- The log of a sane service ends where its writer goes on. -/
theorem Sane.logPosition_eq {service : Service} {scene : Scene} {addressing : Addressing} {ledger : Ledger}
    (sane : Sane service scene addressing ledger) : service.relation.logPosition = service.logBytes.length := by
  cases log : service.relation.log with
  | none => rw [Relation.logPosition, Service.logBytes, log, Option.elim_none, Option.elim_none, List.length_nil]
  | some writer =>
      rw [Relation.logPosition, Service.logBytes, log, Option.elim_some, Option.elim_some]
      cases log_eq : scene.log with
      | none => cases log.symm.trans (sane.shows.unlogged.mpr log_eq)
      | some journal => exact (sane.shows.logged writer journal log log_eq).atEnd

section Replacing

variable {service : Service}
  (created : Service.create (.empty "index" (some (.memory .empty))) .empty 1 false = .ok service)

include created

/-- Calls on a new index with a log in memory have room as far as they demand no more. -/
theorem room_of_create (calls : List Call)
    (demand : (calls.map (Call.demand ⟨1, false⟩)).sum < 2 ^ 31) :
    (service.run calls).size < 2 ^ 32 ∧ (service.run calls).logBytes.length < 2 ^ 64 := by
  have bounds : 1 ≤ (1 : UInt32).toNat ∧ (1 : UInt32).toNat ≤ maxPagesPerRange := by decide
  have at_end := Log.Writer.fresh_memory.atEnd_of_some_eq
  have position : (Service.create (.empty "index" (some (.memory .empty))) .empty 1 false).toOption.map
    (fun service => service.relation.logPosition) = some 11 := rfl
  rw [created] at position
  have position : service.relation.logPosition = 11 := Option.some.inj position
  have sane := sane_of_create bounds at_end created
  have one := size_of_create bounds at_end created
  have grows := sane.takes_calls calls (by omega)
  have small : (service.run calls).size < 2 ^ 32 := by
    have size : (service.run calls).size ≤ service.size + _ := grows.size_le
    omega
  obtain ⟨_, -, sane'⟩ := sane.run calls small
  refine ⟨small, ?_⟩
  rw [← sane'.logPosition_eq]
  have stop := grows.position_le
  simp only [Log.maxFrameLength, Log.maxBodyLength, Log.frameOverhead] at stop
  omega

/-- Two summaries are stored for the same range, the second one in the place of the first one. -/
theorem binds_replaced : (∀ payload, ¬ service.Binds 3 payload) ∧
    (∀ payload, ¬ (service.run [.openAccessor]).Binds 3 payload) ∧
    (∀ payload, (service.run [.openAccessor, .use 0 (.insert 3 [7])]).Binds 3 payload ↔ payload = [7]) ∧
    (service.run [.openAccessor, .use 0 (.insert 3 [7]), .use 0 (.insert 3 [8])]).Binds 3 [8] := by
  have bounds : 1 ≤ (1 : UInt32).toNat ∧ (1 : UInt32).toNat ≤ maxPagesPerRange := by decide
  have sane := sane_of_create bounds Log.Writer.fresh_memory.atEnd_of_some_eq created
  have bound := fun calls demand => sane.binds_run calls (room_of_create created calls demand).1 3
  refine ⟨fun payload binds => ?_, fun payload binds => ?_, fun payload => ?_, ?_⟩
  · exact nomatch (bound [] (by decide) payload).mp binds
  · exact nomatch (bound [.openAccessor] (by decide) payload).mp binds
  · have first := bound [.openAccessor, .use 0 (.insert 3 [7])] (by decide) payload
    exact first.trans ⟨fun eq => (Option.some.inj eq).symm, fun eq => congrArg some eq.symm⟩
  · exact (bound [.openAccessor, .use 0 (.insert 3 [7]), .use 0 (.insert 3 [8])] (by decide) [8]).mpr rfl

/-- In the end the range map has a page and there is a page behind it, and the metapage is another one than in the new
index, which says that the range map has none. -/
theorem pages_replaced {last : Service}
    (eq : last = service.run [.openAccessor, .use 0 (.insert 3 [7]), .use 0 (.insert 3 [8])]) :
    2 < last.size ∧ (∃ page, last.relation.page? 1 = some page ∧ MapPage page) ∧
      ∃ old, service.relation.page? metaBlock = some old ∧ last.relation.page? metaBlock ≠ some old := by
  have bounds : 1 ≤ (1 : UInt32).toNat ∧ (1 : UInt32).toNat ≤ maxPagesPerRange := by decide
  have sane := sane_of_create bounds Log.Writer.fresh_memory.atEnd_of_some_eq created
  have room := room_of_create created [.openAccessor, .use 0 (.insert 3 [7]), .use 0 (.insert 3 [8])] (by decide)
  obtain ⟨scene, -, sane'⟩ := sane.run _ room.1
  rw [← eq] at sane'
  -- the index binds the range, so that the range map reaches it and its summary is on a page behind
  have plain : scene.image.contents.appendOnly = false := congrArg Addressing.appendOnly sane'.addressing_eq
  obtain ⟨reached, behind, page, _, _, beyond, at_behind, -⟩ :=
    sane'.sound.reach_of_binds plain ((sane'.binds 3 [8]).mpr rfl)
  rw [sane'.addressing_eq] at reached
  have reached : 1 ≤ scene.image.contents.lastMapPage := reached
  obtain ⟨map, at_map, is_map⟩ := (sane'.sound.shape.plain plain 1).mpr ⟨by decide, reached⟩
  obtain ⟨old, at_old, holds⟩ := sane.sound.holds
  have page_eq : ∀ block, last.relation.page? block = scene.image.page? block := by
    intro block
    rw [← page?_pagesOf, sane'.shows.pages]
  refine ⟨?_, ⟨map, (page_eq 1).trans at_map, is_map⟩, old, ?_, ?_⟩
  · rw [Service.size, ← size_pagesOf, sane'.shows.pages]
    have inside := Image.lt_of_page? at_behind
    have first : 1 ≤ scene.image.contents.lastMapPage.toNat := UInt32.le_iff_toNat_le.mp reached
    omega
  · rw [← page?_pagesOf, sane.shows.pages]
    exact at_old
  · rw [page_eq]
    intro same
    have contents := Image.contents_eq ⟨old, same, holds⟩
    rw [contents_created] at contents
    rw [contents] at reached
    exact absurd reached (by decide)

end Replacing

/-- Recovery from any mix of page versions. Take an index that is created in a new relation with
a new log, any calls on it, and a relation in which every page is one of zeros or as the index
had it after some of the calls, chosen anew for every page. Then recovery succeeds on all
records of the log, and ends with exactly the pages of the index. Blocks of the index have
numbers, and so have positions in its log. -/
theorem replay_mixed_pages {writer : Log.Writer} {file : ByteArray} {pagesPerRange : UInt32} (name : String)
    (appendOnly : Bool) (bounds : 1 ≤ pagesPerRange.toNat ∧ pagesPerRange.toNat ≤ maxPagesPerRange)
    (fresh : writer.Fresh file) :
    ∃ service, Service.create (.empty name (some writer)) file pagesPerRange appendOnly = .ok service ∧
      ∀ calls, (service.run calls).size < 2 ^ 32 → (service.run calls).logBytes.length < 2 ^ 64 →
        ∃ records, (service.run calls).logRecords = .ok records ∧
          ∀ relation : Relation, relation.interference = .none →
            relation.buffers.size ≤ (service.run calls).size → service.Leaves calls relation →
            ∃ after, replay relation records = (.ok (), after) ∧
              pagesOf after = pagesOf (service.run calls).relation := by
  obtain ⟨service, created, chronicles⟩ := exists_chronicle name appendOnly bounds fresh
  refine ⟨service, created, fun calls small room => ?_⟩
  obtain ⟨_, _, chronicle, -⟩ := chronicles name
  obtain ⟨records, told⟩ := chronicle.exists_logRecords calls small room
  refine ⟨records, told, fun relation alone size leaves => ?_⟩
  obtain ⟨_, _, chronicle, -⟩ := chronicles relation.name
  have yields : Yields relation (replay relation records) _ := replay_spec alone (Nat.lt_of_le_of_lt size small)
  rw [chronicle.redoLog_mixed small room told leaves size] at yields
  obtain ⟨ok, pages, -⟩ := yields
  exact ⟨_, Prod.ext ok rfl, pages⟩

/-- A summary is stored, and then another one in its place. Nothing is written back to the copy but the
metapage of the new index, which knows of no range map page, and a page of zeros where the range
map has its page now. The pages behind it are missing. -/
theorem replay_mixed_pages_stale : ∃ service last records, ∃ copy : Relation, ∃ after,
    Service.create (.empty "index" (some (.memory .empty))) .empty 1 false = .ok service ∧
      last = service.run [.openAccessor, .use 0 (.insert 3 [7]), .use 0 (.insert 3 [8])] ∧
      last.logRecords = .ok records ∧ last.Binds 3 [8] ∧ copy.buffers.size = 2 ∧ 2 < last.size ∧
      copy.page? 0 = service.relation.page? 0 ∧ copy.page? 0 ≠ last.relation.page? 0 ∧
      copy.page? 1 = some .zero ∧ (∃ page, last.relation.page? 1 = some page ∧ MapPage page) ∧
      replay copy records = (.ok (), after) ∧ pagesOf after = pagesOf last.relation := by
  have bounds : 1 ≤ (1 : UInt32).toNat ∧ (1 : UInt32).toNat ≤ maxPagesPerRange := by decide
  obtain ⟨service, created, recovers⟩ := replay_mixed_pages "index" false bounds Log.Writer.fresh_memory
  let calls : List Call := [.openAccessor, .use 0 (.insert 3 [7]), .use 0 (.insert 3 [8])]
  have room := room_of_create created calls (by decide)
  obtain ⟨records, told, recovers⟩ := recovers calls room.1 room.2
  obtain ⟨-, -, -, binds⟩ := binds_replaced created
  obtain ⟨more, map, old, at_old, differs⟩ := pages_replaced created rfl
  let copy : Relation := ⟨"copy", #[⟨old, false⟩, ⟨.zero, false⟩], none, .none⟩
  have leaves : service.Leaves calls copy := by
    intro block page at_block
    simp only [Relation.page?, Relation.buffer?, copy] at at_block
    rcases number : block.toNat with _ | _ | more
    · obtain rfl : block = metaBlock := UInt32.toNat_inj.mp number
      obtain rfl := Option.some.inj at_block
      exact .inr ⟨[], calls, rfl, (page?_pagesOf _ _).trans at_old⟩
    · rw [number] at at_block
      exact .inl (Option.some.inj at_block).symm
    · rw [number] at at_block
      cases at_block
  obtain ⟨after, replayed, pages⟩ := recovers copy rfl (Nat.le_of_lt more) leaves
  exact ⟨service, service.run calls, records, copy, after, created, rfl, told, binds, rfl, more, at_old.symm,
    fun same => differs same.symm, rfl, map, replayed, pages⟩

/-! ## Logs that end early -/

/-- Making the log again in a relation without pages brings back a sound index and its bindings. -/
theorem Retold.exists_replay {copy : String} {scene : Scene} {journal : Journal} {shadow : Image}
    (retold : Retold copy scene journal shadow) (sound : Sound scene.image scene.image.contents) :
    ∃ after, replay (.empty copy none) journal.records = (.ok (), after) ∧
      Sound (pagesOf after) (pagesOf after).contents ∧
      ∀ heapBlock payload, Binds (pagesOf after) (pagesOf after).contents heapBlock payload ↔
        Binds scene.image scene.image.contents heapBlock payload := by
  have alone : (Relation.empty copy none).interference = .none := rfl
  have blank : pagesOf (.empty copy none) = #[] := Array.map_empty
  have yields : Yields (.empty copy none) (replay (.empty copy none) journal.records) (some shadow) := by
    rw [← retold.redone, ← blank]
    exact replay_spec alone (by decide : 0 < 2 ^ 32)
  obtain ⟨after, replayed, rfl, -⟩ := yields.exists_after
  obtain ⟨sound', binds⟩ := retold.sound sound
  exact ⟨after, replayed, sound', binds⟩

section Prefixes

variable {index : String} {service : Service} {scene after : Scene} {journal later : Journal}
  {records : List (Lsn × Log.Record)} {count : Nat}

/-- Before its last record an operation has changed no binding. -/
theorem Conducts.exists_cut (conducts : Conducts scene after) (log_eq : scene.log = some journal)
    (log_eq' : after.log = some later) (first : journal.records.length ≤ count) (last : count < later.records.length) :
    ∃ middle cut, middle.log = some cut ∧ cut.Precedes later ∧ cut.records = later.records.take count ∧
      Drift .solo scene middle := by
  rcases conducts with drift | ⟨heapBlock, new, before, record, pages, contents, drift, -, rfl, -⟩
  · exact RangeIndex.exists_cut (fun _ _ => And.left) drift log_eq log_eq' first (Nat.le_of_lt last)
  · obtain ⟨before_log, log_before, -⟩ := exists_later_log (fun _ _ => And.left) drift log_eq
    obtain rfl : before_log.push record = later := by
      rw [Scene.commit, log_before] at log_eq'
      exact Option.some.inj log_eq'
    rw [Journal.push, List.length_append, List.length_singleton] at last
    obtain ⟨middle, cut, log_cut, precedes, eq, drift'⟩ :=
      RangeIndex.exists_cut (fun _ _ => And.left) drift log_eq log_before first (Nat.le_of_lt_succ last)
    refine ⟨middle, cut, log_cut, precedes.trans (before_log.precedes_push record), ?_, drift'⟩
    rw [eq, Journal.push, List.take_append_of_le_length (Nat.le_of_lt_succ last)]

/-- The first calls are those all of whose records are among the first of the log. -/
structure Service.Completes (service : Service) (front back : List Call) (count : Nat) : Prop where
  complete : (service.run front).recordCount ≤ count
  incomplete : ∀ call rest, back = call :: rest → count < (service.run (front ++ [call])).recordCount

/-- Which of the calls are complete is seen from how many records there are after each of them. -/
theorem Service.Completes.take {front back : List Call} (completes : service.Completes front back count)
    (split : calls = front ++ back) : front = calls.take front.length ∧
      (service.run (calls.take front.length)).recordCount ≤ count ∧
      (front.length < calls.length → count < (service.run (calls.take (front.length + 1))).recordCount) := by
  subst split
  rw [List.take_left]
  refine ⟨rfl, completes.complete, fun more => ?_⟩
  cases back with
  | nil =>
      rw [List.append_nil] at more
      exact absurd more (Nat.lt_irrefl _)
  | cons call rest =>
      have next := completes.incomplete call rest rfl
      rw [List.take_append, Nat.add_sub_cancel_left, List.take_of_length_le (Nat.le_succ _)]
      exact next

/-- Every prefix of the log is that of a scene that binds what the service bound between two
calls. -/
theorem Chronicle.exists_cut (chronicle : Chronicle index service scene journal) (calls : List Call)
    (small : (service.run calls).size < 2 ^ 32) (room : (service.run calls).logBytes.length < 2 ^ 64)
    (told : (service.run calls).logRecords = .ok records) (first : journal.records.length ≤ count)
    (last : count ≤ records.length) :
    ∃ front back middle cut, calls = front ++ back ∧ service.Completes front back count ∧
      Evolves .solo scene middle ∧ middle.log = some cut ∧ cut.stop < 2 ^ 64 ∧ cut.records = records.take count ∧
      ∀ heapBlock payload, Binds middle.image middle.image.contents heapBlock payload ↔
        (service.run front).Binds heapBlock payload := by
  induction calls generalizing service scene journal with
  | nil =>
      obtain rfl : journal.records = records := Except.ok.inj (chronicle.logRecords_eq.symm.trans told)
      obtain ⟨addressing, ledger, sane⟩ := chronicle.sane
      refine ⟨[], [], scene, journal, rfl, ⟨?_, fun call rest eq => nomatch eq⟩, .refl, chronicle.retold.log_eq,
        chronicle.room, ?_, fun heapBlock payload => ?_⟩
      · exact Nat.le_trans (Nat.le_of_eq chronicle.recordCount_eq) first
      · rw [List.take_of_length_le first]
      · rw [Service.Binds, ← sane.shows.pages]
        exact Iff.rfl
  | cons call calls ih =>
      obtain ⟨small', room'⟩ := chronicle.room_front [call] calls small room
      obtain ⟨scene', journal', conducts, precedes, chronicle'⟩ := chronicle.perform call small' room'
      obtain ⟨addressing, ledger, sane⟩ := chronicle.sane
      by_cases done : journal'.records.length ≤ count
      · obtain ⟨front, back, middle, cut, rfl, completes, evolves, rest⟩ := ih chronicle' small room told done
        exact ⟨call :: front, back, middle, cut, rfl, ⟨completes.complete, completes.incomplete⟩,
          (conducts.evolves sane.sound).trans evolves, rest⟩
      · have early := Nat.lt_of_not_le done
        obtain ⟨_, last', precedes', chronicle''⟩ := chronicle'.run calls small room
        obtain rfl : last'.records = records := Except.ok.inj (chronicle''.logRecords_eq.symm.trans told)
        obtain ⟨middle, cut, log_eq, precedes_cut, eq, drift⟩ :=
          conducts.exists_cut chronicle.retold.log_eq chronicle'.retold.log_eq first early
        refine ⟨[], call :: calls, middle, cut, rfl, ⟨?_, ?_⟩, drift.evolves, log_eq,
          Nat.lt_of_le_of_lt precedes_cut.stop_le chronicle'.room, ?_, fun heapBlock payload => ?_⟩
        · exact Nat.le_trans (Nat.le_of_eq chronicle.recordCount_eq) first
        · intro call' rest eq'
          obtain ⟨rfl, -⟩ := List.cons.inj eq'
          exact Nat.lt_of_lt_of_eq early chronicle'.recordCount_eq.symm
        · obtain ⟨rest, eq'⟩ := precedes'.records
          rw [eq, ← eq', List.take_append_of_le_length (Nat.le_of_lt early)]
        · rw [drift.neutral heapBlock payload, Service.Binds, ← sane.shows.pages]
          exact Iff.rfl

end Prefixes

/-- Calls that leave the number of records as it was leave the pages as they were. -/
theorem Chronicle.pagesOf_run {index : String} {service : Service} {scene : Scene} {journal : Journal}
    (chronicle : Chronicle index service scene journal) (calls : List Call) (small : (service.run calls).size < 2 ^ 32)
    (room : (service.run calls).logBytes.length < 2 ^ 64)
    (same : (service.run calls).recordCount ≤ service.recordCount) :
    pagesOf (service.run calls).relation = pagesOf service.relation := by
  obtain ⟨scene', journal', precedes, chronicle'⟩ := chronicle.run calls small room
  rw [chronicle.recordCount_eq, chronicle'.recordCount_eq] at same
  obtain rfl := precedes.eq_of_length_le same
  exact Option.some.inj (chronicle'.redoLog_eq.symm.trans chronicle.redoLog_eq)

/-- To bind a range that the range map of a plain index does not reach takes two records. -/
theorem Rebinds.two_records {scene after : Scene} {heapBlock : BlockNumber} {new : Option (List UInt8)}
    {journal later : Journal} (rebinds : Rebinds scene after heapBlock new)
    (sound : Sound scene.image scene.image.contents) (plain : scene.image.contents.appendOnly = false)
    (beyond : scene.image.contents.lastMapPage < scene.image.contents.addressing.target heapBlock)
    (log_eq : scene.log = some journal) (log_eq' : after.log = some later) :
    journal.records.length + 2 ≤ later.records.length := by
  obtain ⟨middle, record, pages, contents, drift, change, rfl, eq⟩ := rebinds
  obtain ⟨journal', log_middle, precedes, -⟩ := exists_later_log (fun _ _ => And.left) drift log_eq
  rw [Scene.commit, log_middle] at log_eq'
  obtain rfl : journal'.push record = later := Option.some.inj log_eq'
  have covered : ∃ block, Covers middle.image middle.image.contents heapBlock block := change.covers eq
  by_cases none : journal'.records.length ≤ journal.records.length
  · -- nothing was logged, so that the range map is as short as before
    have quiet := quiet_of_log (fun _ _ => And.left) drift sound log_eq log_middle none
    have contents := Image.contents_eq (quiet.sound sound).holds
    obtain ⟨block, covers⟩ := covered
    rw [contents, Covers, if_neg (by rw [plain]; decide)] at covers
    obtain ⟨rfl, le⟩ := covers
    exact absurd (UInt32.lt_of_lt_of_le beyond le) (UInt32.lt_irrefl _)
  · rw [Journal.push, List.length_append, List.length_singleton]
    omega

/-- A call that binds a range that the range map of a plain index does not reach writes two records. -/
theorem Chronicle.two_records {index : String} {service : Service} {scene : Scene} {journal : Journal} {call : Call}
    {heapBlock : BlockNumber} {payload : List UInt8} (chronicle : Chronicle index service scene journal)
    (small : (service.perform call).2.size < 2 ^ 32) (room : (service.perform call).2.logBytes.length < 2 ^ 64)
    (plain : scene.image.contents.appendOnly = false)
    (beyond : scene.image.contents.lastMapPage < scene.image.contents.addressing.target heapBlock)
    (before : ¬ service.Binds heapBlock payload) (after : (service.perform call).2.Binds heapBlock payload) :
    service.recordCount + 2 ≤ (service.perform call).2.recordCount := by
  obtain ⟨scene', journal', conducts, -, chronicle'⟩ := chronicle.perform call small room
  obtain ⟨_, _, sane⟩ := chronicle.sane
  obtain ⟨_, _, sane'⟩ := chronicle'.sane
  rw [Service.Binds, sane.shows.pages] at before
  rw [Service.Binds, sane'.shows.pages] at after
  rw [chronicle.recordCount_eq, chronicle'.recordCount_eq]
  rcases conducts with drift | ⟨other, new, rebinds⟩
  · exact absurd ((drift.neutral heapBlock payload).mp after) before
  · have bound := (rebinds.binds sane.sound).mp after
    by_cases here : heapBlock = other
    · subst here
      exact rebinds.two_records sane.sound plain beyond chronicle.retold.log_eq chronicle'.retold.log_eq
    · rw [if_neg here] at bound
      exact absurd bound before

/-- The log has one record when the index is new, at least two more when the first summary is stored, because the range
map gets its first page for it, and more when the second one is. -/
theorem recordCount_replaced {service : Service}
    (created : Service.create (.empty "index" (some (.memory .empty))) .empty 1 false = .ok service) :
    (service.run [.openAccessor]).recordCount = 1 ∧
    3 ≤ (service.run [.openAccessor, .use 0 (.insert 3 [7])]).recordCount ∧
    (service.run [.openAccessor, .use 0 (.insert 3 [7])]).recordCount <
      (service.run [.openAccessor, .use 0 (.insert 3 [7]), .use 0 (.insert 3 [8])]).recordCount := by
  have bounds : 1 ≤ (1 : UInt32).toNat ∧ (1 : UInt32).toNat ≤ maxPagesPerRange := by decide
  have sane := sane_of_create bounds Log.Writer.fresh_memory.atEnd_of_some_eq created
  obtain ⟨_, created', chronicles⟩ := exists_chronicle_created "index" false bounds Log.Writer.fresh_memory
  obtain rfl := Except.ok.inj (created.symm.trans created')
  have chronicle := chronicles "index"
  obtain ⟨-, unbound, first, second⟩ := binds_replaced created
  have room₁ := room_of_create created [.openAccessor] (by decide)
  have room₂ := room_of_create created [.openAccessor, .use 0 (.insert 3 [7])] (by decide)
  have room₃ := room_of_create created [.openAccessor, .use 0 (.insert 3 [7]), .use 0 (.insert 3 [8])] (by decide)
  have opened : (service.run [.openAccessor]).relation = service.relation ∧
      (service.run [.openAccessor]).logFile = service.logFile := by
    change (service.perform .openAccessor).2.relation = _ ∧ (service.perform .openAccessor).2.logFile = _
    rw [Service.perform, sane.run_openIndex]
    exact ⟨rfl, rfl⟩
  have few : (service.run [.openAccessor]).recordCount = 1 := by
    rw [Service.recordCount, Service.logRecords, Service.logBytes, opened.1, opened.2]
    exact chronicle.recordCount_eq
  refine ⟨few, ?_, ?_⟩
  · obtain ⟨scene₁, _, -, chronicle₁⟩ := chronicle.run [.openAccessor] room₁.1 room₁.2
    obtain ⟨_, _, sane₁⟩ := chronicle₁.sane
    have contents : scene₁.image.contents = .new 1 false := by
      rw [← sane₁.shows.pages, opened.1, sane.shows.pages, contents_created]
    have more := chronicle₁.two_records room₂.1 room₂.2 (by rw [contents]; rfl) (by rw [contents]; decide)
      (unbound [7]) ((first [7]).mpr rfl)
    rw [few] at more
    exact more
  · obtain ⟨_, _, -, chronicle₂⟩ := chronicle.run [.openAccessor, .use 0 (.insert 3 [7])] room₂.1 room₂.2
    by_contra same
    have pages := chronicle₂.pagesOf_run [.use 0 (.insert 3 [8])] room₃.1 room₃.2 (Nat.not_lt.mp same)
    have still : (service.run [.openAccessor, .use 0 (.insert 3 [7])]).Binds 3 [8] := by
      rw [Service.Binds, ← pages]
      exact second
    exact absurd ((first [8]).mp still) (by decide)

/-- Recovery of a log that ends early. Take an index that is created in a new relation with a new
log, any calls on it, and any of the records of the log from the first on, at least one. Then
recovery of these records in a relation without pages succeeds. It ends with a sound index, in
which entries and tuples point at each other, and this index binds what the other one bound
after the last call all of whose records are among them. -/
theorem replay_prefix_binds {writer : Log.Writer} {file : ByteArray} {pagesPerRange : UInt32} (name : String)
    (appendOnly : Bool) (bounds : 1 ≤ pagesPerRange.toNat ∧ pagesPerRange.toNat ≤ maxPagesPerRange)
    (fresh : writer.Fresh file) :
    ∃ service, Service.create (.empty name (some writer)) file pagesPerRange appendOnly = .ok service ∧
      ∀ calls, (service.run calls).size < 2 ^ 32 → (service.run calls).logBytes.length < 2 ^ 64 →
        ∃ records, (service.run calls).logRecords = .ok records ∧
          ∀ (copy : String) (count : Nat), 0 < count → count ≤ records.length →
            ∃ after, replay (.empty copy none) (records.take count) = (.ok (), after) ∧
              Sound (pagesOf after) (pagesOf after).contents ∧
              ∃ front back, calls = front ++ back ∧ service.Completes front back count ∧
                ∀ heapBlock payload, Binds (pagesOf after) (pagesOf after).contents heapBlock payload ↔
                  (service.run front).Binds heapBlock payload := by
  obtain ⟨service, created, chronicles⟩ := exists_chronicle name appendOnly bounds fresh
  refine ⟨service, created, fun calls small room => ?_⟩
  obtain ⟨_, _, chronicle, -⟩ := chronicles name
  obtain ⟨records, told⟩ := chronicle.exists_logRecords calls small room
  refine ⟨records, told, fun copy count positive last => ?_⟩
  obtain ⟨scene, _, chronicle, one⟩ := chronicles copy
  obtain ⟨addressing, ledger, sane⟩ := chronicle.sane
  obtain ⟨front, back, middle, cut, split, completes, evolves, log_eq, room', eq, binds⟩ :=
    chronicle.exists_cut calls small room told (Nat.le_trans (Nat.le_of_eq one) positive) last
  obtain ⟨shadow, retold⟩ := chronicle.retold.evolves evolves log_eq room'
  obtain ⟨after, replayed, sound', binds'⟩ := retold.exists_replay (evolves.sound_contents sane.sound)
  refine ⟨after, eq ▸ replayed, sound', front, back, split, completes, fun heapBlock payload => ?_⟩
  exact (binds' heapBlock payload).trans (binds heapBlock payload)

/-- Two summaries are stored for the same range. The log is cut between the two calls, and it is cut
amid the first of them, after the record of the page that the range map had to get for it. -/
theorem replay_prefix_binds_amid : ∃ service records between amid,
    Service.create (.empty "index" (some (.memory .empty))) .empty 1 false = .ok service ∧
      (service.run [.openAccessor, .use 0 (.insert 3 [7]), .use 0 (.insert 3 [8])]).logRecords = .ok records ∧
      (service.run [.openAccessor]).recordCount = 1 ∧
      3 ≤ (service.run [.openAccessor, .use 0 (.insert 3 [7])]).recordCount ∧
      (service.run [.openAccessor, .use 0 (.insert 3 [7])]).recordCount < records.length ∧
      replay (.empty "copy" none) (records.take (service.run [.openAccessor, .use 0 (.insert 3 [7])]).recordCount) =
        (.ok (), between) ∧
      (∀ payload, Binds (pagesOf between) (pagesOf between).contents 3 payload ↔ payload = [7]) ∧
      replay (.empty "copy" none) (records.take 2) = (.ok (), amid) ∧
      ∀ payload, ¬ Binds (pagesOf amid) (pagesOf amid).contents 3 payload := by
  have bounds : 1 ≤ (1 : UInt32).toNat ∧ (1 : UInt32).toNat ≤ maxPagesPerRange := by decide
  obtain ⟨service, created, recovers⟩ := replay_prefix_binds "index" false bounds Log.Writer.fresh_memory
  let calls : List Call := [.openAccessor, .use 0 (.insert 3 [7]), .use 0 (.insert 3 [8])]
  obtain ⟨small, room⟩ := room_of_create created calls (by decide)
  obtain ⟨new, unbound, first, -⟩ := binds_replaced created
  obtain ⟨few, three, most⟩ := recordCount_replaced created
  obtain ⟨records, told, recovers⟩ := recovers calls small room
  have total : (service.run calls).recordCount = records.length := by
    rw [Service.recordCount, told]
    rfl
  -- which calls are complete at the two cuts
  obtain ⟨between, replayed, -, front, back, split, completes, binds⟩ :=
    recovers "copy" (service.run (calls.take 2)).recordCount (Nat.lt_of_lt_of_le (by decide) three) (total ▸ most.le)
  obtain ⟨amid, replayed', -, front', back', split', completes', binds'⟩ :=
    recovers "copy" 2 (by decide) (total ▸ Nat.le_trans (by decide) (Nat.le_trans three most.le))
  refine ⟨service, records, between, amid, created, told, few, three, total ▸ most, replayed,
    fun payload => ?_, replayed', fun payload => ?_⟩
  · obtain ⟨front_eq, complete, incomplete⟩ := completes.take split
    have two : front.length = 2 := by
      have le : front.length ≤ 3 := (List.prefix_append front back).length_le.trans_eq (congrArg List.length split.symm)
      generalize front.length = done at complete incomplete le
      rcases (by omega : done = 0 ∨ done = 1 ∨ done = 2 ∨ done = 3) with rfl | rfl | rfl | rfl
      · exact absurd ((incomplete (by decide)).trans_eq few) (Nat.not_lt.mpr (Nat.le_trans (by decide) three))
      · exact absurd (incomplete (by decide)) (Nat.lt_irrefl _)
      · rfl
      · exact absurd complete (Nat.not_le.mpr most)
    rw [binds, front_eq, two]
    exact first payload
  · obtain ⟨front_eq, complete, -⟩ := completes'.take split'
    have early : front'.length ≤ 1 := by
      have le : front'.length ≤ 3 :=
        (List.prefix_append front' back').length_le.trans_eq (congrArg List.length split'.symm)
      by_contra late
      rcases (by omega : front'.length = 2 ∨ front'.length = 3) with two | three'
      · rw [two] at complete
        exact absurd (Nat.le_trans three complete) (by decide)
      · rw [three'] at complete
        exact absurd (Nat.le_trans three (Nat.le_trans most.le complete)) (by decide)
    rw [binds', front_eq]
    rcases Nat.le_one_iff_eq_zero_or_eq_one.mp early with zero | one
    · rw [zero]
      exact new payload
    · rw [one]
      exact unbound payload

end RangeIndex

end Warehouse
