import Warehouse.Proofs.RangeIndex.Traffic

/-! # Operations on trusted pages

A page can be trusted when it is what its type says it is. `Procedure.Careful` says of an operation, whatever
trusted pages it is shown, that it writes only trusted pages and that no failure is its own fault. The
judgement follows the tree of requests and needs no world: there is one rule for each request and one for
sequences, and `Careful.run`, `Careful.attempt` and `Careful.comesTo` carry it over to worlds whose pages can be
trusted. -/

namespace Warehouse.RangeIndex

/-! ## Trusted pages -/

/-- The page is what its type says: a regular page is a map of tuples, and a metapage describes an index. -/
structure Trusted (page : Page) : Prop where
  regular : isRegular page = true → Regular page
  valid : ∀ contents, Metapage.Holds page contents → contents.addressing.Valid

namespace Trusted

variable {page : Page} {contents : Metapage}

theorem of_regular (regular : Regular page) : Trusted page where
  regular _ := regular
  valid _ holds := absurd (regular.kind.symm.trans (Metapage.holds_iff.mp holds).1) (by decide)

theorem of_map (map : isMap page = true) : Trusted page where
  regular regular := absurd ((isRegular_iff.mp regular).symm.trans (isMap_iff.mp map)) (by decide)
  valid _ holds := absurd ((isMap_iff.mp map).symm.trans (Metapage.holds_iff.mp holds).1) (by decide)

theorem of_holds (holds : Metapage.Holds page contents) (valid : contents.addressing.Valid) : Trusted page where
  regular regular := absurd ((isRegular_iff.mp regular).symm.trans (Metapage.holds_iff.mp holds).1) (by decide)
  valid _ again := again.unique holds ▸ valid

theorem zero : Trusted .zero where
  regular regular := absurd regular isRegular_zero
  valid _ holds := absurd (Metapage.holds_iff.mp holds).1 (by simp [pageType, metaType])

/-- Contents written back to a metapage can be trusted if they describe the same index. -/
theorem write {other : Metapage} (holds : Metapage.Holds page contents) (magic : other.magic = contents.magic)
    (valid : other.addressing.Valid) : Trusted (other.write page) := by
  obtain ⟨kind, known, rfl⟩ := Metapage.holds_iff.mp holds
  exact of_holds (Metapage.holds_write other page kind (magic.trans known)) valid

/-- The log position of a page does not matter. -/
theorem setLsn (trusted : Trusted page) (lsn : Lsn) : Trusted (page.setLsn lsn) := by
  have same : Page.SameOn 8 pageSize (page.setLsn lsn) page := Page.sameOn_setLsn page lsn (Nat.le_refl _)
  have kind : pageType (page.setLsn lsn) = pageType page :=
    (links_congr (same.mono (by decide) (Nat.le_refl _))).1
  constructor
  · intro regular
    have before : isRegular page = true := isRegular_iff.mpr (kind.symm.trans (isRegular_iff.mp regular))
    exact ((trusted.regular before).congr (same.mono (Nat.le_refl _) (by decide))
      (same.mono (by decide) (Nat.le_refl _))).1
  · intro contents holds
    exact trusted.valid contents (holds.congr (same.symm.mono (by decide) (Nat.le_refl _)))

theorem valid_of_read {index : String} {block : BlockNumber} (trusted : Trusted page)
    (read : Metapage.read page index block = .ok contents) : contents.addressing.Valid :=
  trusted.valid contents (Metapage.holds_of_read read)

end Trusted

/-! ## Careful operations -/

/-- The failure is neither that a page was full nor that an access left a page. -/
def Innocent : Failure → Prop
  | .error (.pageFull _) => False
  | .fault .outOfBounds => False
  | _ => True

/-- A value is as it should be, and a failure is innocent. -/
def Proper {α : Type} (post : α → Prop) : Except Failure α → Prop
  | .ok value => post value
  | .error failure => Innocent failure

/-- What a careful operation may ask for. -/
def Request.Careful (rule : Addressing → Prop) : Request → Prop
  | .remember state => rule state.addressing
  | .write _ page => Trusted page
  | _ => True

/-- What a careful operation may expect. -/
def Request.Expects (rule : Addressing → Prop) : (request : Request) → request.Answer → Prop
  | .accessor, state => rule state.addressing
  | .view _, page => Trusted page
  | .acquire _, page => Trusted page
  | _, _ => True

namespace Procedure

/-- Whatever it expects and is told, the operation writes only trusted pages, keeps the rule of its accessor,
fails only innocently, and its value satisfies `post`. -/
def Careful {α : Type} (rule : Addressing → Prop) (post : α → Prop) : Procedure α → Prop
  | done value => post value
  | fail failure => Innocent failure
  | ask request next => request.Careful rule ∧ ∀ answer, request.Expects rule answer → (next answer).Careful rule post

namespace Careful

variable {α β : Type} {rule : Addressing → Prop} {post : α → Prop} {block : BlockNumber} {page : Page}

theorem andThen {procedure : Procedure α} {rest : α → Procedure β} {post' : β → Prop}
    (careful : procedure.Careful rule post) (next : ∀ value, post value → (rest value).Careful rule post') :
    (procedure >>= rest).Careful rule post' := by
  change (procedure.bind rest).Careful rule post'
  induction procedure with
  | done value => exact next value careful
  | fail failure => exact careful
  | ask request later ih => exact ⟨careful.1, fun answer expected => ih answer (careful.2 answer expected)⟩

/-- What is made of the value does not matter. -/
theorem returning {procedure : Procedure α} {part : α → β} (careful : procedure.Careful rule post) :
    (procedure >>= fun value => pure (part value)).Careful rule fun _ => True :=
  careful.andThen fun _ _ => trivial

/-- An operation that ends with a report, whatever would follow. -/
theorem report {cause : Error} {rest : β → Procedure α} (innocent : Innocent (.error cause)) :
    (Procedure.report cause >>= rest).Careful rule post := innocent

theorem report_last {cause : Error} (innocent : Innocent (.error cause)) :
    (Procedure.report cause : Procedure α).Careful rule post := innocent

/-- A computation that stays within the pages. -/
theorem lift_fault {outcome : Except Fault β} {rest : β → Procedure α}
    (innocent : ∀ fault, outcome = .error fault → Innocent (.fault fault))
    (next : ∀ value, outcome = .ok value → (rest value).Careful rule post) :
    ((liftM outcome : Procedure β) >>= rest).Careful rule post := by
  cases outcome with
  | ok value => exact next value rfl
  | error fault => exact innocent fault rfl

/-- A computation that is known to come to a value. -/
theorem lift_ok {outcome : Except Fault β} {value : β} {rest : β → Procedure α} (eq : outcome = .ok value)
    (next : (rest value).Careful rule post) : ((liftM outcome : Procedure β) >>= rest).Careful rule post := by
  rw [eq]
  exact next

/-- A computation that is known to come to a value, of which only a part matters. -/
theorem map_lift_ok {γ : Type} {outcome : Except Fault β} {value : β} {part : β → γ} {rest : γ → Procedure α}
    (eq : outcome = .ok value) (next : (rest (part value)).Careful rule post) :
    ((part <$> (liftM outcome : Procedure β)) >>= rest).Careful rule post := by
  rw [eq]
  exact next

/-- A value that needs no computation. -/
theorem pure_bind {value : β} {rest : β → Procedure α} (next : (rest value).Careful rule post) :
    ((pure value : Procedure β) >>= rest).Careful rule post := next

/-- A check that reports no full page. -/
theorem lift_error {outcome : Except Error β} {rest : β → Procedure α}
    (innocent : ∀ cause, outcome = .error cause → Innocent (.error cause))
    (next : ∀ value, outcome = .ok value → (rest value).Careful rule post) :
    ((liftM outcome : Procedure β) >>= rest).Careful rule post := by
  cases outcome with
  | ok value => exact next value rfl
  | error cause => exact innocent cause rfl

/-- A choice between two operations. -/
theorem choice {condition : Prop} [Decidable condition] {first second : Procedure α}
    (yes : condition → first.Careful rule post) (no : ¬ condition → second.Careful rule post) :
    (if condition then first else second).Careful rule post := by
  split
  · exact yes ‹_›
  · exact no ‹_›

/-- An operation that is done first only if a condition holds. -/
theorem optional {condition : Prop} [Decidable condition] {first : Procedure Unit} {rest : Procedure α}
    (yes : condition → first.Careful rule fun _ => True) (next : rest.Careful rule post) :
    (if condition then first >>= fun _ => rest else rest).Careful rule post :=
  choice (fun holds => (yes holds).andThen fun _ _ => next) fun _ => next

theorem poll {rest : Unit → Procedure α} (next : (rest ()).Careful rule post) :
    (Procedure.poll >>= rest).Careful rule post := ⟨trivial, fun _ _ => next⟩

theorem accessor {rest : Accessor → Procedure α}
    (next : ∀ accessor, rule accessor.addressing → (rest accessor).Careful rule post) :
    (Procedure.accessor >>= rest).Careful rule post := ⟨trivial, next⟩

theorem remember {accessor : Accessor} {rest : Unit → Procedure α} (known : rule accessor.addressing)
    (next : (rest ()).Careful rule post) : (Procedure.remember accessor >>= rest).Careful rule post :=
  ⟨known, fun _ _ => next⟩

theorem remember_last {accessor : Accessor} {post : Unit → Prop} (known : rule accessor.addressing) (h : post ()) :
    (Procedure.remember accessor).Careful rule post :=
  ⟨known, fun _ _ => h⟩

theorem countBlocks {rest : BlockNumber → Procedure α} (next : ∀ count, (rest count).Careful rule post) :
    (Procedure.countBlocks >>= rest).Careful rule post := ⟨trivial, fun count _ => next count⟩

theorem pin {rest : Unit → Procedure α} (next : (rest ()).Careful rule post) :
    (Procedure.pin block >>= rest).Careful rule post := ⟨trivial, fun _ _ => next⟩

theorem allocate {rest : BlockNumber → Procedure α} (next : ∀ block, (rest block).Careful rule post) :
    (Procedure.allocate >>= rest).Careful rule post := ⟨trivial, fun block _ => next block⟩

theorem view {rest : Page → Procedure α} (next : ∀ page, Trusted page → (rest page).Careful rule post) :
    (Procedure.view block >>= rest).Careful rule post := ⟨trivial, next⟩

theorem acquire {rest : Page → Procedure α} (next : ∀ page, Trusted page → (rest page).Careful rule post) :
    (Procedure.acquire block >>= rest).Careful rule post := ⟨trivial, next⟩

theorem write {rest : Unit → Procedure α} (trusted : Trusted page) (next : (rest ()).Careful rule post) :
    (Procedure.write block page >>= rest).Careful rule post := ⟨trusted, fun _ _ => next⟩

theorem markDirty {rest : Unit → Procedure α} (next : (rest ()).Careful rule post) :
    (Procedure.markDirty block >>= rest).Careful rule post := ⟨trivial, fun _ _ => next⟩

theorem release {rest : Unit → Procedure α} (next : (rest ()).Careful rule post) :
    (Procedure.release block >>= rest).Careful rule post := ⟨trivial, fun _ _ => next⟩

theorem releaseAll {rest : Unit → Procedure α} (next : (rest ()).Careful rule post) :
    (Procedure.releaseAll >>= rest).Careful rule post := ⟨trivial, fun _ _ => next⟩

theorem releaseAll_last : Procedure.releaseAll.Careful rule fun _ => True := ⟨trivial, fun _ _ => trivial⟩

/-- Every operation ends by giving up its locks. -/
theorem released {value : α} (h : post value) :
    (Procedure.releaseAll >>= fun _ => pure value).Careful rule post := ⟨trivial, fun _ _ => h⟩

theorem change {rest : Unit → Procedure α} (trusted : Trusted page) (next : (rest ()).Careful rule post) :
    (Procedure.change block page >>= rest).Careful rule post :=
  ⟨trusted, fun _ _ => ⟨trivial, fun _ _ => next⟩⟩

theorem stamp {pages : List (BlockNumber × Page)} (lsn : Lsn) (trusted : ∀ entry ∈ pages, Trusted entry.2) :
    (Procedure.stamp lsn pages).Careful rule fun _ => True := by
  induction pages with
  | nil => exact trivial
  | cons entry pages ih =>
      apply write ((trusted entry List.mem_cons_self).setLsn lsn)
      exact ih fun entry mem => trusted entry (List.mem_cons_of_mem _ mem)

theorem logged {record : Log.Record} {pages : List (BlockNumber × Page)} {rest : Unit → Procedure α}
    (trusted : ∀ entry ∈ pages, Trusted entry.2) (next : (rest ()).Careful rule post) :
    (Procedure.logged record pages >>= rest).Careful rule post := by
  have written : (Procedure.logged record pages).Careful rule fun _ => True := by
    refine ⟨trivial, ?_⟩
    intro lsn _
    cases lsn with
    | none => exact trivial
    | some lsn => exact stamp lsn trusted
  exact written.andThen fun _ _ => next

end Careful

end Procedure

/-! ## Relations whose pages can be trusted -/

/-- The pages of the relation can be trusted, and nobody else acts on it. -/
structure Tended (relation : Relation) : Prop where
  alone : relation.interference = .none
  pages : ∀ buffer ∈ relation.buffers, Trusted buffer.page

namespace Tended

variable {relation : Relation} {block : BlockNumber} {page : Page}

theorem empty (name : String) (log : Option Log.Writer) : Tended (.empty name log) :=
  ⟨rfl, fun _ mem => absurd mem (Array.not_mem_empty _)⟩

theorem trusted (tended : Tended relation) (at_block : relation.page? block = some page) : Trusted page := by
  obtain ⟨buffer, at_index, rfl⟩ := Option.map_eq_some_iff.mp at_block
  exact tended.pages buffer (Array.mem_of_getElem? at_index)

theorem grow (tended : Tended relation) : Tended relation.grow := by
  refine ⟨tended.alone, ?_⟩
  intro buffer mem
  rcases Array.mem_push.mp mem with old | rfl
  · exact tended.pages buffer old
  · exact .zero

theorem growBy (tended : Tended relation) (count : Nat) : Tended (relation.growBy count) := by
  induction count generalizing relation with
  | zero => exact tended
  | succ count ih => exact ih tended.grow

/-- One buffer is replaced by one whose page can be trusted. -/
theorem modify (tended : Tended relation) (index : Nat) {change : Buffer → Buffer}
    (kept : ∀ buffer, Trusted buffer.page → Trusted (change buffer).page) :
    Tended { relation with buffers := relation.buffers.modify index change } := by
  refine ⟨tended.alone, ?_⟩
  intro buffer mem
  obtain ⟨other, bound, rfl⟩ := Array.getElem_of_mem mem
  rw [Array.size_modify] at bound
  have old := tended.pages _ (Array.getElem_mem bound)
  rw [Array.getElem_modify]
  split
  · exact kept _ old
  · exact old

theorem setPage (tended : Tended relation) (trusted : Trusted page) : Tended (relation.setPage block page) :=
  tended.modify _ fun _ _ => trusted

theorem markDirty (tended : Tended relation) : Tended (relation.markDirty block) :=
  tended.modify _ fun _ => id

/-- Adding a page fails only when there are no more block numbers. -/
theorem allocate_overtaken (tended : Tended relation) (extra : Nat) :
    ∃ outcome after, Relation.allocate { relation with interference.growth := some ⟨extra, 0⟩ } = (outcome, after) ∧
      (∀ cause, outcome = .error cause → cause = .invalidBlock invalidBlock) ∧ Tended after := by
  rw [RangeIndex.allocate_overtaken tended.alone extra]
  split
  · exact ⟨_, _, rfl, fun cause eq => (Except.error.inj eq).symm, tended.growBy extra⟩
  · exact ⟨_, _, rfl, nofun, tended.growBy (extra + 1)⟩

theorem allocate (tended : Tended relation) : ∃ outcome after, relation.allocate = (outcome, after) ∧
    (∀ cause, outcome = .error cause → cause = .invalidBlock invalidBlock) ∧ Tended after := by
  have same : Relation.allocate { relation with interference.growth := some ⟨0, 0⟩ } = relation.allocate := by
    obtain ⟨name, buffers, log, interference⟩ := relation
    obtain rfl : interference = .none := tended.alone
    rfl
  have overtaken := tended.allocate_overtaken 0
  rwa [same] at overtaken

/-- The log takes every record. -/
theorem logRecord (tended : Tended relation) (file : ByteArray) (record : Log.Record) :
    ∃ lsn after file', relation.logRecord file record = (.ok lsn, after, file') ∧ Tended after := by
  obtain ⟨name, buffers, log, interference⟩ := relation
  obtain rfl : interference = .none := tended.alone
  cases log with
  | none => exact ⟨none, _, file, rfl, rfl, tended.pages⟩
  | some writer => exact ⟨_, _, _, rfl, rfl, tended.pages⟩

end Tended

/-! ## Careful operations at work -/

/-- The world is one in which a careful operation may act. -/
structure World.Orderly (rule : Addressing → Prop) (world : World) : Prop where
  tended : Tended world.relation
  known : rule world.accessor.addressing

/-- What comes of a request of a careful operation. -/
def Request.Served (rule : Addressing → Prop) (request : Request) (result : Except Failure request.Answer × World) :
    Prop :=
  Proper (request.Expects rule) result.1 ∧ result.2.Orderly rule

section Worlds

variable {α : Type} {rule : Addressing → Prop} {post : α → Prop} {world after : World} {procedure rest : Procedure α}
  {outcome : Except Failure α}

theorem World.Orderly.locking (orderly : world.Orderly rule) (block : BlockNumber) :
    Proper Trusted (world.locking block) := by
  rw [World.locking]
  split
  · exact trivial
  · split
    · rename_i page at_block
      exact orderly.tended.trusted at_block
    · exact trivial

/-- A request of a careful operation is served. -/
theorem World.Orderly.perform (orderly : world.Orderly rule) (request : Request) (careful : request.Careful rule) :
    request.Served rule (world.perform request) := by
  cases request with
  | poll =>
      rw [World.perform]
      constructor
      · split <;> exact trivial
      · exact orderly
  | accessor => exact ⟨orderly.known, orderly⟩
  | remember state => exact ⟨trivial, orderly.tended, careful⟩
  | countBlocks => exact ⟨trivial, orderly⟩
  | pin block =>
      rw [World.perform, read_alone orderly.tended.alone]
      cases (pagesOf world.relation).page? block <;> exact ⟨trivial, orderly.tended, orderly.known⟩
  | allocate =>
      obtain ⟨outcome, later, eq, failed, tended⟩ := orderly.tended.allocate
      rw [World.perform, eq]
      cases outcome with
      | ok block => exact ⟨trivial, tended, orderly.known⟩
      | error cause =>
          obtain rfl := failed cause rfl
          exact ⟨trivial, tended, orderly.known⟩
  | view block => exact ⟨orderly.locking block, orderly⟩
  | acquire block =>
      have shown := orderly.locking block
      rw [World.perform]
      cases locked : world.locking block with
      | ok page =>
          rw [locked] at shown
          exact ⟨shown, orderly.tended, orderly.known⟩
      | error failure =>
          rw [locked] at shown
          exact ⟨shown, orderly⟩
  | write block page => exact ⟨trivial, orderly.tended.setPage careful, orderly.known⟩
  | markDirty block => exact ⟨trivial, orderly.tended.markDirty, orderly.known⟩
  | release block => exact ⟨trivial, orderly.tended, orderly.known⟩
  | releaseAll => exact ⟨trivial, orderly.tended, orderly.known⟩
  | append record =>
      obtain ⟨lsn, later, file, eq, tended⟩ := orderly.tended.logRecord world.logFile record
      rw [World.perform, eq]
      exact ⟨trivial, tended, orderly.known⟩

/-- So it is when the operation is told to stop, or when others add pages first. -/
theorem World.Orderly.yields (orderly : world.Orderly rule) {request : Request} (careful : request.Careful rule)
    {result : Except Failure request.Answer × World} (yields : world.Yields request result) :
    request.Served rule result := by
  cases yields with
  | undisturbed => exact orderly.perform request careful
  | cancelled => exact ⟨trivial, orderly⟩
  | overtaken extra =>
      obtain ⟨outcome, later, eq, failed, tended⟩ := orderly.tended.allocate_overtaken extra
      rw [World.perform, eq]
      cases outcome with
      | ok block => exact ⟨trivial, tended, orderly.known⟩
      | error cause =>
          obtain rfl := failed cause rfl
          exact ⟨trivial, tended, orderly.known⟩

/-- Whatever comes of a careful operation, the world stays orderly, and a failure is innocent. -/
theorem Procedure.Careful.attempt (careful : procedure.Careful rule post) (orderly : world.Orderly rule)
    (attempt : Attempt procedure world outcome after) : Proper post outcome ∧ after.Orderly rule := by
  induction attempt with
  | done => exact ⟨careful, orderly⟩
  | fail => exact ⟨careful, orderly⟩
  | refused yields => exact orderly.yields careful.1 yields
  | answered yields _ ih =>
      obtain ⟨expected, orderly'⟩ := orderly.yields careful.1 yields
      exact ih (careful.2 _ expected) orderly'

theorem Procedure.Careful.run (careful : procedure.Careful rule post) (orderly : world.Orderly rule) :
    Proper post (procedure.run world).1 ∧ (procedure.run world).2.Orderly rule :=
  careful.attempt orderly (attempt_run procedure world)

/-- What is left of an operation, and the world it has brought about, after some of its requests. -/
inductive Procedure.ComesTo : Procedure α → World → Procedure α → World → Prop
  | here {procedure : Procedure α} {world : World} : ComesTo procedure world procedure world
  | step {request : Request} {next : request.Answer → Procedure α} {answer : request.Answer} {rest : Procedure α}
      {world middle after : World} (performed : world.perform request = (.ok answer, middle))
      (later : ComesTo (next answer) middle rest after) : ComesTo (.ask request next) world rest after

/-- The operation calls another one at some time of its run. -/
def Procedure.Calls {β : Type} (procedure : Procedure α) (world : World) (called : Procedure β)
    (after : World) : Prop :=
  ∃ rest : β → Procedure α, procedure.ComesTo world (called >>= rest) after

/-- What is left of a careful operation is careful. -/
theorem Procedure.Careful.comesTo (careful : procedure.Careful rule post) (orderly : world.Orderly rule)
    (comes : procedure.ComesTo world rest after) : rest.Careful rule post ∧ after.Orderly rule := by
  induction comes with
  | here => exact ⟨careful, orderly⟩
  | step performed _ ih =>
      have served := orderly.perform _ careful.1
      rw [performed] at served
      exact ih (careful.2 _ served.1) served.2

end Worlds

/-! ## Calls in a sequence -/

namespace Procedure

variable {α β γ : Type} {procedure rest : Procedure α} {next : α → Procedure β} {called : Procedure γ}
  {world middle after : World} {value : α}

theorem bind_bind (called : Procedure γ) (first : γ → Procedure α) (next : α → Procedure β) :
    (called >>= first) >>= next = called >>= fun value => first value >>= next := by
  change (called.bind first).bind next = called.bind fun value => (first value).bind next
  induction called with
  | done value => rfl
  | fail failure => rfl
  | ask request later ih => exact congrArg (ask request) (funext ih)

/-- A sequence that came to a value has run both of its parts. -/
theorem exists_run_of_bind {result : β} (run : (procedure >>= next).run world = (.ok result, after)) :
    ∃ value middle, procedure.run world = (.ok value, middle) ∧ (next value).run middle = (.ok result, after) := by
  change (procedure.bind next).run world = _ at run
  rw [run_bind] at run
  cases first : procedure.run world with
  | mk outcome middle =>
      rw [first] at run
      cases outcome with
      | ok value => exact ⟨value, middle, rfl, run⟩
      | error failure => cases run

theorem ComesTo.bind (comes : procedure.ComesTo world rest after) (next : α → Procedure β) :
    (procedure >>= next).ComesTo world (rest >>= next) after := by
  induction comes with
  | here => exact .here
  | step performed _ ih => exact .step performed ih

theorem ComesTo.of_run {rest : Procedure β} (run : procedure.run world = (.ok value, middle))
    (comes : (next value).ComesTo middle rest after) : (procedure >>= next).ComesTo world rest after := by
  change (procedure.bind next).ComesTo world rest after
  induction procedure generalizing world with
  | done result =>
      cases run
      exact comes
  | fail failure => cases run
  | ask request later ih =>
      rw [Procedure.run] at run
      cases performed : world.perform request with
      | mk outcome world' =>
          rw [performed] at run
          cases outcome with
          | ok answer => exact .step performed (ih answer run)
          | error failure => cases run

theorem Calls.first {next : γ → Procedure β} : (called >>= next).Calls world called world := ⟨next, .here⟩

theorem Calls.within (calls : procedure.Calls world called after) (next : α → Procedure β) :
    (procedure >>= next).Calls world called after := by
  obtain ⟨rest, comes⟩ := calls
  have later := comes.bind next
  rw [bind_bind] at later
  exact ⟨_, later⟩

theorem Calls.later (run : procedure.run world = (.ok value, middle)) (calls : (next value).Calls middle called after) :
    (procedure >>= next).Calls world called after := by
  obtain ⟨rest, comes⟩ := calls
  exact ⟨rest, .of_run run comes⟩

end Procedure

end Warehouse.RangeIndex
