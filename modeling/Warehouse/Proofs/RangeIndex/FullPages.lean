import Warehouse.Proofs.RangeIndex.Room

/-! # Full pages

Inserting a summary reports a full page only to refuse one that is too long for an empty page. Whatever has
happened to an index, its pages can be trusted, so that every careful operation finds room on the pages that it
locks: `Service.Tended.traffic`. An insertion that is not refused and comes to a place has stored the summary
on such a page: `insert_stores`. -/

namespace Warehouse.RangeIndex

/-! ## Refusing a summary -/

section Refusal

variable {rounds : Nat} {heapBlock : BlockNumber} {payload : List UInt8} {world after : World}

/-- How inserting a summary fails that is too long. -/
def refusal (heapBlock : BlockNumber) (accessor : Accessor) : Failure :=
  match accessor.addressing.rangeStart heapBlock with
  | .ok _ => .error (.pageFull invalidBlock)
  | .error fault => .fault fault

/-- Inserting a summary that is too long asks for the accessor and fails. -/
theorem insert_eq_of_long (long : maxTupleSize < 4 + payload.length) :
    insert rounds heapBlock payload = .ask .accessor fun accessor => .fail (refusal heapBlock accessor) := by
  have refused : ∀ start, maxTupleSize < (Summary.encode ⟨start, payload⟩).length := by
    intro start
    rwa [Summary.length_encode, Nat.add_comm]
  refine congrArg (Procedure.ask .accessor) (funext fun accessor => ?_)
  change (liftM (accessor.addressing.rangeStart heapBlock) >>= _) = Procedure.fail (refusal heapBlock accessor)
  unfold refusal
  cases accessor.addressing.rangeStart heapBlock with
  | error fault => rfl
  | ok start =>
      change (if maxTupleSize < (Summary.encode ⟨start, payload⟩).length then _ else _) = _
      rw [if_pos (refused start)]
      rfl

/-- Nothing comes of an attempt that fails as soon as it knows the accessor. -/
theorem Attempt.eq_of_refusal {α : Type} {failure : Accessor → Failure} {outcome : Except Failure α}
    (attempt : Attempt (.ask .accessor fun accessor => .fail (failure accessor)) world outcome after) :
    after = world := by
  cases attempt with
  | refused yields =>
      cases yields
  | answered yields rest =>
      cases yields with
      | undisturbed =>
          cases rest
          rfl

end Refusal

/-! ## Services -/

/-- The pages of the service can be trusted, and its accessors know how the table is cut into ranges. -/
structure Service.Tended (service : Service) : Prop where
  relation : RangeIndex.Tended service.relation
  valid : ∀ accessor ∈ service.accessors, accessor.addressing.Valid

/-- An accessor that was opened knows what the metapage says. -/
theorem valid_of_opened {index : String} {world after : World} (orderly : world.Orderly fun _ => True)
    (attempt : Attempt (openIndex index) world (.ok ()) after) : after.accessor.addressing.Valid := by
  change Attempt (.ask (.pin metaBlock) _) world (.ok ()) after at attempt
  cases attempt with
  | answered pinned attempt =>
      obtain ⟨-, orderly⟩ := orderly.yields (show Request.Careful _ (.pin metaBlock) from trivial) pinned
      change Attempt (.ask (.view metaBlock) _) _ (.ok ()) after at attempt
      cases attempt with
      | @answered _ _ page _ _ _ _ viewed attempt =>
          have trusted : Trusted page :=
            (orderly.yields (show Request.Careful _ (.view metaBlock) from trivial) viewed).1
          change Attempt (liftM (Metapage.read page index metaBlock) >>= _) _ (.ok ()) after at attempt
          cases read : Metapage.read page index metaBlock with
          | error cause =>
              rw [read] at attempt
              cases attempt
          | ok contents =>
              rw [read] at attempt
              change Attempt (.ask (.remember (.ofMetapage index contents)) _) _ (.ok ()) after at attempt
              cases attempt with
              | answered remembered attempt =>
                  cases remembered
                  cases attempt
                  exact trusted.valid_of_read read

namespace Service.Tended

variable {service last : Service} {accessor : Accessor} {happening : Happening} {happenings : List Happening}

theorem orderly (tended : service.Tended) (mem : accessor ∈ service.accessors) :
    (service.world accessor).Orderly Addressing.Valid :=
  ⟨tended.relation, tended.valid accessor mem⟩

/-- No rule is needed for an accessor that is not kept. -/
theorem orderly_any (tended : service.Tended) : (service.world accessor).Orderly fun _ => True :=
  ⟨tended.relation, trivial⟩

/-- A new index can be trusted. -/
theorem of_create {name : String} {log : Option Log.Writer} {file : ByteArray} {pagesPerRange : UInt32}
    {appendOnly : Bool} (created : Service.create (.empty name log) file pagesPerRange appendOnly = .ok service) :
    service.Tended := by
  have careful : (RangeIndex.create name pagesPerRange appendOnly).Careful (fun _ => True) fun _ => True :=
    Procedure.careful_create name pagesPerRange appendOnly
  have start : World.Orderly (fun _ => True) ⟨.empty name log, file, .unopened, []⟩ := ⟨.empty name log, trivial⟩
  obtain ⟨-, orderly⟩ := careful.run start
  cases run : (RangeIndex.create (Relation.empty name log).name pagesPerRange appendOnly).run
      ⟨.empty name log, file, .unopened, []⟩ with
  | mk outcome world =>
      have after : World.Orderly _ (outcome, world).2 := run ▸ orderly
      rw [Service.create, run] at created
      cases outcome with
      | error failure => cases created
      | ok done =>
          obtain rfl := Except.ok.inj created
          refine ⟨after.tended, ?_⟩
          intro accessor mem
          cases mem

/-- The other accessors are as they were when one of them was used. -/
theorem used (tended : service.Tended) {number : Nat} {world : World} (orderly : world.Orderly Addressing.Valid) :
    Tended ⟨world.relation, world.logFile, service.accessors.set number world.accessor⟩ := by
  refine ⟨orderly.tended, ?_⟩
  intro other mem
  rcases List.mem_or_eq_of_mem_set mem with old | rfl
  · exact tended.valid other old
  · exact orderly.known

/-- Whatever happens, the pages can still be trusted. -/
theorem step (tended : service.Tended) (step : service.Step happening last) : last.Tended := by
  cases step with
  | opened attempt =>
      have careful : (openIndex service.relation.name).Careful (fun _ => True) fun _ => True :=
        Procedure.careful_openIndex _ fun _ _ => trivial
      obtain ⟨-, orderly⟩ := careful.attempt tended.orderly_any attempt
      refine ⟨orderly.tended, ?_⟩
      intro accessor mem
      rcases List.mem_append.mp mem with old | new
      · exact tended.valid accessor old
      · rw [List.mem_singleton.mp new]
        exact valid_of_opened tended.orderly_any attempt
  | @worked number accessor task outcome world at_number suits attempt =>
      have orderly := tended.orderly (List.mem_of_getElem? at_number)
      by_cases fits : task.Fits
      · have careful : task.procedure.Careful Addressing.Valid fun _ => True := Procedure.careful_task fits
        exact tended.used (careful.attempt orderly attempt).2
      · simp only [Task.Fits, not_forall, Nat.not_le] at fits
        obtain ⟨heapBlock, payload, rfl, long⟩ := fits
        have refused : (Task.use (.insert heapBlock payload)).procedure =
            .ask .accessor fun accessor => .fail (refusal heapBlock accessor) := by
          rw [Task.procedure, Use.procedure, insert_eq_of_long long]
          rfl
        rw [refused] at attempt
        obtain rfl := attempt.eq_of_refusal
        exact tended.used orderly
  | @desummarized heapBlock outcome world attempt =>
      have careful : (desummarize Session.rounds service.relation.name heapBlock).Careful
          (fun _ => True) fun _ => True :=
        Procedure.careful_desummarize _ heapBlock fun _ _ => trivial
      obtain ⟨-, orderly⟩ := careful.attempt tended.orderly_any attempt
      exact ⟨orderly.tended, tended.valid⟩
  | grew count => exact ⟨tended.relation.growBy count, tended.valid⟩

theorem traffic (tended : service.Tended) (traffic : service.Traffic happenings last) : last.Tended := by
  induction traffic with
  | nil => exact tended
  | cons step _ ih => exact ih (tended.step step)

end Service.Tended

/-! ## Storing a summary -/

section Storing

variable {α β : Type} {procedure : Procedure α} {next : α → Procedure β} {value : α} {world middle after : World}
  {rounds limit index : Nat} {addressing : Addressing} {heapBlock : BlockNumber} {tuple : List UInt8}
  {place : ItemPointer}

/-- The operation stores the tuple on a page that it has locked for it. -/
def Procedure.Stores (procedure : Procedure α) (world : World) (tuple : List UInt8) : Prop :=
  ∃ excluded limit site before locked middle,
    procedure.Calls world (Placement.lockSite excluded tuple.length limit) before ∧
      (Placement.lockSite excluded tuple.length limit).run before = (.ok site, locked) ∧
      procedure.Calls world (Placement.addTo site tuple) middle

theorem Procedure.Stores.within (stores : procedure.Stores world tuple) (next : α → Procedure β) :
    (procedure >>= next).Stores world tuple := by
  obtain ⟨excluded, limit, site, before, locked, middle, locks, run, adds⟩ := stores
  exact ⟨excluded, limit, site, before, locked, middle, locks.within next, run, adds.within next⟩

theorem Procedure.Stores.later (run : procedure.run world = (.ok value, middle))
    (stores : (next value).Stores middle tuple) : (procedure >>= next).Stores world tuple := by
  obtain ⟨excluded, limit, site, before, locked, middle, locks, locked_eq, adds⟩ := stores
  exact ⟨excluded, limit, site, before, locked, middle, .later run locks, locked_eq, .later run adds⟩

theorem store_stores (run : (store rounds addressing heapBlock index tuple).run world = (.ok (some place), after)) :
    (store rounds addressing heapBlock index tuple).Stores world tuple := by
  rw [store] at run ⊢
  obtain ⟨site, locked, lock, run⟩ := Procedure.exists_run_of_bind run
  obtain ⟨⟨mapBlock, mapPage⟩, held, lockPage, run⟩ := Procedure.exists_run_of_bind run
  obtain ⟨found, same, read, run⟩ := Procedure.exists_run_of_bind run
  refine ⟨none, rounds, site, world, locked, same, .first, lock, .later lock (.later lockPage (.later read ?_))⟩
  by_cases taken : found.isValid = true
  · rw [if_pos taken] at run
    cases run
  · rw [if_neg taken]
    exact .first

theorem move_stores {old : ItemPointer}
    (run : (Placement.move rounds heapBlock old tuple).run world = (.ok (some place), after)) :
    (Placement.move rounds heapBlock old tuple).Stores world tuple := by
  rw [Placement.move] at run ⊢
  obtain ⟨accessor, asked, ask, run⟩ := Procedure.exists_run_of_bind run
  obtain ⟨_, pinned, pin, run⟩ := Procedure.exists_run_of_bind run
  obtain ⟨page, acquired, acquire, run⟩ := Procedure.exists_run_of_bind run
  apply Procedure.Stores.later ask
  apply Procedure.Stores.later pin
  apply Procedure.Stores.later acquire
  dsimp only at run ⊢
  by_cases kind : isRegular page = true
  case neg =>
    rw [if_neg kind] at run
    cases run
  rw [if_pos kind] at run ⊢
  obtain ⟨present, looked, look, run⟩ := Procedure.exists_run_of_bind run
  apply Procedure.Stores.later look
  by_cases gone : (!present) = true
  · rw [if_pos gone] at run
    cases run
  rw [if_neg gone] at run ⊢
  obtain ⟨site, locked, lock, run⟩ := Procedure.exists_run_of_bind run
  obtain ⟨⟨mapBlock, mapPage⟩, held, lockPage, run⟩ := Procedure.exists_run_of_bind run
  obtain ⟨number, counted, count, run⟩ := Procedure.exists_run_of_bind run
  obtain ⟨found, same, read, run⟩ := Procedure.exists_run_of_bind run
  refine ⟨some old.block, rounds, site, looked, locked, same, .first, lock,
    .later lock (.later lockPage (.later count (.later read ?_)))⟩
  by_cases moved : found ≠ old
  · rw [if_pos moved] at run
    cases run
  · rw [if_neg moved]
    exact .first

theorem bind_stores (run : (RangeIndex.bind limit addressing heapBlock index tuple rounds).run world =
    (.ok place, after)) :
    (RangeIndex.bind limit addressing heapBlock index tuple rounds).Stores world tuple := by
  induction rounds generalizing world with
  | zero => cases run
  | succ rounds ih =>
      rw [RangeIndex.bind] at run ⊢
      obtain ⟨_, polled, poll, run⟩ := Procedure.exists_run_of_bind run
      obtain ⟨found, looked, find, run⟩ := Procedure.exists_run_of_bind run
      apply Procedure.Stores.later poll
      apply Procedure.Stores.later find
      cases found with
      | some found =>
          obtain ⟨stored, moved, move, run⟩ := Procedure.exists_run_of_bind run
          cases stored with
          | some place => exact (move_stores move).within _
          | none => exact .later move (ih run)
      | none =>
          obtain ⟨stored, added, store, run⟩ := Procedure.exists_run_of_bind run
          cases stored with
          | some place => exact (store_stores store).within _
          | none => exact .later store (ih run)

/-- Inserting a summary that comes to a place has stored the summary there. -/
theorem insert_stores {payload : List UInt8} (valid : world.accessor.addressing.Valid)
    (run : (insert rounds heapBlock payload).run world = (.ok place, after)) :
    (insert rounds heapBlock payload).Stores world
      (Summary.encode ⟨world.accessor.addressing.start heapBlock, payload⟩) := by
  rw [insert] at run ⊢
  obtain ⟨accessor, asked, ask, run⟩ := Procedure.exists_run_of_bind run
  apply Procedure.Stores.later ask
  obtain ⟨rfl, rfl⟩ : world.accessor = accessor ∧ world = asked := by
    cases ask
    exact ⟨rfl, rfl⟩
  obtain ⟨start, computed, compute, run⟩ := Procedure.exists_run_of_bind run
  apply Procedure.Stores.later compute
  rw [Addressing.rangeStart_eq valid] at compute
  cases compute
  by_cases long : maxTupleSize < (Summary.encode ⟨world.accessor.addressing.start heapBlock, payload⟩).length
  · dsimp only at run
    rw [if_pos long] at run
    cases run
  dsimp only at run ⊢
  rw [if_neg long] at run ⊢
  obtain ⟨_, ensured, ensure, run⟩ := Procedure.exists_run_of_bind run
  obtain ⟨index, counted, count, run⟩ := Procedure.exists_run_of_bind run
  apply Procedure.Stores.later ensure
  apply Procedure.Stores.later count
  exact bind_stores run

end Storing

/-! ## The only full page -/

/-- There is room for a summary at a site. -/
def Placement.Site.Accepts (site : Site) (tuple : List UInt8) : Prop :=
  ∃ offset page, site.page.addItem tuple none = .ok (some (offset, page))

/-- A careful operation only adds items to pages that take them. -/
theorem Procedure.Careful.accepts {α : Type} {rule : Addressing → Prop} {post : α → Prop} {procedure : Procedure α}
    {world after : World} {site : Placement.Site} {tuple : List UInt8} (careful : procedure.Careful rule post)
    (orderly : world.Orderly rule) (calls : procedure.Calls world (Placement.addTo site tuple) after) :
    site.Accepts tuple := by
  obtain ⟨rest, comes⟩ := calls
  obtain ⟨left, -⟩ := careful.comesTo orderly comes
  rw [Placement.addTo] at left
  cases added : site.page.addItem tuple none with
  | error fault =>
      rw [added] at left
      obtain rfl := Page.addItem_error added
      exact left.elim
  | ok found =>
      cases found with
      | none =>
          rw [added] at left
          exact left.elim
      | some stored => exact ⟨stored.1, stored.2, added⟩

/-- A page that a careful operation locks for a summary takes every summary of that length. -/
theorem Procedure.Careful.locks {α : Type} {rule : Addressing → Prop} {post : α → Prop} {procedure : Procedure α}
    {world middle after : World} {excluded : Option BlockNumber} {length limit : Nat} {site : Placement.Site}
    (careful : procedure.Careful rule post) (orderly : world.Orderly rule)
    (calls : procedure.Calls world (Placement.lockSite excluded length limit) middle) (short : length ≤ maxTupleSize)
    (locked : (Placement.lockSite excluded length limit).run middle = (.ok site, after)) {tuple : List UInt8}
    (same : tuple.length = length) (nonempty : 0 < tuple.length) : site.Accepts tuple := by
  obtain ⟨rest, comes⟩ := calls
  obtain ⟨-, orderly⟩ := careful.comesTo orderly comes
  obtain ⟨takes, -⟩ := (Procedure.careful_lockSite short excluded).run orderly
  rw [locked] at takes
  subst same
  obtain ⟨offset, page, added, -⟩ := takes.addItem nonempty
  exact ⟨offset, page, added⟩

/-- Whatever has happened to an index, inserting a summary reports a full page if and only if the summary is
too long for every page, and then nothing has changed. Otherwise every page that is locked for a summary, here
and on the way to it, takes the summary that is stored there, and if the insertion comes to a place, the
summary has been stored on such a page. Other tasks find room on all pages, too. -/
theorem insert_reports_full_iff {name : String} {log : Option Log.Writer} {file : ByteArray} {pagesPerRange : UInt32}
    {appendOnly : Bool} {service state : Service} {happenings : List Happening} {accessor : Accessor}
    (created : Service.create (.empty name log) file pagesPerRange appendOnly = .ok service)
    (traffic : service.Traffic happenings state) (opened : accessor ∈ state.accessors) (rounds : Nat)
    (heapBlock : BlockNumber) (payload : List UInt8) :
    ((∃ block, ((insert rounds heapBlock payload).run (state.world accessor)).1 = .error (.error (.pageFull block))) ↔
        maxTupleSize < 4 + payload.length) ∧
      (maxTupleSize < 4 + payload.length → (insert rounds heapBlock payload).run (state.world accessor) =
        (.error (.error (.pageFull invalidBlock)), state.world accessor)) ∧
      (4 + payload.length ≤ maxTupleSize →
        (∀ site tuple middle, (insert rounds heapBlock payload).Calls (state.world accessor)
          (Placement.addTo site tuple) middle → site.Accepts tuple) ∧
        ∀ excluded length limit middle site after, (insert rounds heapBlock payload).Calls (state.world accessor)
          (Placement.lockSite excluded length limit) middle → length ≤ maxTupleSize →
          (Placement.lockSite excluded length limit).run middle = (.ok site, after) →
          ∀ tuple : List UInt8, tuple.length = length → 0 < tuple.length → site.Accepts tuple) ∧
      (∀ place after, (insert rounds heapBlock payload).run (state.world accessor) = (.ok place, after) →
        (insert rounds heapBlock payload).Stores (state.world accessor)
          (Summary.encode ⟨accessor.addressing.start heapBlock, payload⟩)) ∧
      ∀ task : Task, task.Fits → ∀ site tuple middle,
        task.procedure.Calls (state.world accessor) (Placement.addTo site tuple) middle → site.Accepts tuple := by
  have tended := (Service.Tended.of_create created).traffic traffic
  have orderly := tended.orderly opened
  have refused (long : maxTupleSize < 4 + payload.length) :
      (insert rounds heapBlock payload).run (state.world accessor) =
        (.error (.error (.pageFull invalidBlock)), state.world accessor) :=
    insert_long (tended.valid accessor opened) (by omega)
  have careful (short : 4 + payload.length ≤ maxTupleSize) :
      (insert rounds heapBlock payload).Careful Addressing.Valid fun _ => True :=
    Procedure.careful_insert short heapBlock
  refine ⟨⟨?_, fun long => ⟨invalidBlock, by rw [refused long]⟩⟩, refused, ?_, ?_, ?_⟩
  · intro ⟨block, full⟩
    by_contra short
    obtain ⟨proper, -⟩ := (careful (Nat.not_lt.mp short)).run orderly
    rw [full] at proper
    exact proper
  · intro short
    constructor
    · intro site tuple middle calls
      exact (careful short).accepts orderly calls
    · intro excluded length limit middle site after calls within locked tuple same nonempty
      exact (careful short).locks orderly calls within locked same nonempty
  · intro place after run
    exact insert_stores (tended.valid accessor opened) run
  · intro task fits site tuple middle calls
    exact (Procedure.careful_task fits).accepts orderly calls

/-- A summary of a new index is refused if it is one byte longer than an empty page takes. -/
theorem insert_reports_full_iff_new : ∃ service state accessor,
    Service.create (.empty "index" none) .empty 1 true = .ok service ∧ service.Traffic [.opened] state ∧
      accessor ∈ state.accessors ∧
      (insert Session.rounds 7 (List.replicate 32717 0)).run (state.world accessor) =
        (.error (.error (.pageFull invalidBlock)), state.world accessor) ∧
      ∀ block, ((insert Session.rounds 7 (List.replicate 32716 0)).run (state.world accessor)).1 ≠
        .error (.error (.pageFull block)) := by
  have bounds : 1 ≤ (1 : UInt32).toNat ∧ (1 : UInt32).toNat ≤ maxPagesPerRange := by decide
  have at_end : ∀ writer : Log.Writer, none = some writer → writer.AtEnd .empty := nofun
  obtain ⟨service, created, sane⟩ := exists_created "index" true bounds at_end
  have traffic : service.Traffic [.opened] _ := .cons sane.step_opened .nil
  have limit : maxTupleSize = 32720 := by decide
  rw [sane.perform_openAccessor] at traffic
  have opened := List.mem_append_right service.accessors
    (List.mem_singleton_self (Accessor.ofMetapage service.relation.name (Scene.created 1 true none).image.contents))
  obtain ⟨-, refused, -⟩ := insert_reports_full_iff created traffic opened Session.rounds 7 (List.replicate 32717 0)
  obtain ⟨full, -⟩ := insert_reports_full_iff created traffic opened Session.rounds 7 (List.replicate 32716 0)
  refine ⟨service, _, _, created, traffic, opened, refused ?_, ?_⟩
  · rw [List.length_replicate, limit]
    decide
  · intro block reported
    have long := full.mp ⟨block, reported⟩
    rw [List.length_replicate, limit] at long
    omega

end Warehouse.RangeIndex
