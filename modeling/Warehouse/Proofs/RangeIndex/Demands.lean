import Warehouse.Proofs.RangeIndex.Services

/-! # What calls take

A relation has room for as many pages as there are block numbers, and its log for as many bytes as
there are positions. This module bounds what a call adds to either when nobody else acts, so that
the room can be seen from the calls. `Procedure.Takes` counts pages and records as far as an
operation needs no more than its rounds say. The loops that extend the range map may take many
rounds and need few: `Procedure.Entails` says that an operation with few rounds that succeeds comes
to the same with more. `Sane.takes_call` puts the two together, and `Sane.takes_calls` adds up. -/

namespace Warehouse

/-! ## Growth -/

/-- No frame of a record of the index is longer. -/
def Log.maxFrameLength : Nat := Log.maxBodyLength + Log.frameOverhead

namespace Relation

/-- Where the next record goes in the log. -/
def logPosition (relation : Relation) : Nat := relation.log.elim 0 Log.Writer.position

/-- Nobody else acts on the later relation, and it has at most so many pages and records more. -/
structure Grows (relation : Relation) (pages records : Nat) (after : Relation) : Prop where
  alone : after.interference = .none
  size_le : after.buffers.size ≤ relation.buffers.size + pages
  position_le : after.logPosition ≤ relation.logPosition + records * Log.maxFrameLength

namespace Grows

variable {relation middle after : Relation} {pages pages' records records' : Nat}

theorem of_alone (alone : relation.interference = .none) : Grows relation pages records relation :=
  ⟨alone, Nat.le_add_right _ _, Nat.le_add_right _ _⟩

theorem mono (h : Grows relation pages records after) (le : pages ≤ pages') (le' : records ≤ records') :
    Grows relation pages' records' after :=
  ⟨h.alone, Nat.le_trans h.size_le (Nat.add_le_add_left le _),
    Nat.le_trans h.position_le (Nat.add_le_add_left (Nat.mul_le_mul_right _ le') _)⟩

theorem trans (h : Grows relation pages records middle) (h' : Grows middle pages' records' after) :
    Grows relation (pages + pages') (records + records') after where
  alone := h'.alone
  size_le := by
    have := h.size_le
    have := h'.size_le
    omega
  position_le := by
    have first := h.position_le
    have second := h'.position_le
    rw [Nat.add_mul]
    omega

end Grows

end Relation

namespace RangeIndex

/-- When nobody else acts, the operation adds at most so many pages and records, whether it
succeeds or not. -/
def Procedure.Takes {α : Type} (procedure : Procedure α) (pages records : Nat) : Prop :=
  ∀ world : World, world.relation.interference = .none →
    world.relation.Grows pages records (procedure.run world).2.relation

section Growth

variable {α β : Type} {world : World} {pages pages' records records' : Nat}
  {procedure : Procedure α} {rest : α → Procedure β}

/-- Only adding pages and writing records make a relation grow. -/
def Request.Free : Request → Prop
  | .allocate => False
  | .append _ => False
  | _ => True

theorem World.grows_free (alone : world.relation.interference = .none) {request : Request} (free : request.Free) :
    world.relation.Grows 0 0 (world.perform request).2.relation := by
  cases request with
  | pin block =>
      simp only [World.perform, read_alone alone]
      split <;> rename_i eq <;> obtain ⟨-, rfl⟩ := Prod.mk.inj eq <;> exact .of_alone alone
  | acquire block =>
      simp only [World.perform]
      split <;> exact .of_alone alone
  | write block page => exact ⟨alone, Nat.le_of_eq Array.size_modify, Nat.le_refl _⟩
  | markDirty block => exact ⟨alone, Nat.le_of_eq Array.size_modify, Nat.le_refl _⟩
  | allocate => exact absurd free id
  | append record => exact absurd free id
  | _ => exact .of_alone alone

/-- Adding a page when nobody else acts fails only if all block numbers are taken. -/
theorem World.perform_allocate (alone : world.relation.interference = .none) :
    world.perform .allocate = (.error (.error (.invalidBlock invalidBlock)), world) ∨
      world.relation.buffers.size < 2 ^ 32 ∧
        world.perform .allocate = (.ok world.relation.blockCount, { world with relation := world.relation.grow }) := by
  have growth : world.relation.interference.growth = none := by rw [alone]; rfl
  have same : { world.relation with interference.growth := none } = world.relation := by
    obtain ⟨⟨name, buffers, log, growth', change, failure⟩, file, accessor, held⟩ := world
    obtain rfl : growth' = none := growth
    rfl
  by_cases room : world.relation.buffers.size < 2 ^ 32
  · refine .inr ⟨room, ?_⟩
    simp only [World.perform, allocate_alone alone room]
    rfl
  · have full : invalidBlock.toNat < world.relation.buffers.size := Nat.lt_of_succ_le (Nat.not_lt.mp room)
    refine .inl ?_
    simp only [World.perform, Relation.allocate, growth, Option.getD_none, Relation.growBy, same, if_pos full]

theorem World.grows_allocate (alone : world.relation.interference = .none) :
    world.relation.Grows 1 0 (world.perform .allocate).2.relation := by
  rcases World.perform_allocate alone with failed | ⟨-, added⟩
  · rw [failed]
    exact .of_alone alone
  · rw [added]
    exact ⟨alone, Nat.le_of_eq (Array.size_push _), Nat.le_refl _⟩

theorem World.grows_append (alone : world.relation.interference = .none) {record : Log.Record} (short : record.Short) :
    world.relation.Grows 0 1 (world.perform (.append record)).2.relation := by
  have attempt : Relation.logAttempt world.relation.interference = (true, .none) := by rw [alone]; rfl
  simp only [World.perform, Relation.logRecord]
  cases log : world.relation.log with
  | none => exact .of_alone alone
  | some writer =>
      simp only [attempt, if_true]
      cases appended : writer.append world.logFile record with
      | mk lsn rest =>
          obtain ⟨writer', file⟩ := rest
          obtain ⟨-, position⟩ := Log.Writer.position_append appended
          have body : record.encode.length ≤ Log.maxBodyLength := short.fits
          rw [Log.length_encodeFrame] at position
          refine ⟨rfl, Nat.le_refl _, ?_⟩
          simp only [Relation.logPosition, log, Option.elim_some, Log.maxFrameLength]
          omega

namespace Procedure.Takes

theorem mono (h : procedure.Takes pages records) (le : pages ≤ pages') (le' : records ≤ records') :
    procedure.Takes pages' records' :=
  fun world alone => (h world alone).mono le le'

theorem done (value : α) : (Procedure.done value).Takes pages records := fun _ => .of_alone

theorem fail (failure : Failure) : (Procedure.fail failure : Procedure α).Takes pages records := fun _ => .of_alone

/-- What the parts of a sequence take. -/
theorem bind (h : procedure.Takes pages records) (h' : ∀ value, (rest value).Takes pages' records') :
    (procedure >>= rest).Takes (pages + pages') (records + records') := by
  intro world alone
  have first := h world alone
  change world.relation.Grows _ _ ((procedure.bind rest).run world).2.relation
  rw [Procedure.run_bind]
  cases ran : procedure.run world with
  | mk outcome middle =>
      rw [ran] at first
      cases outcome with
      | ok value => exact first.trans (h' value middle first.alone)
      | error failure => exact first.mono (Nat.le_add_right _ _) (Nat.le_add_right _ _)

/-- A first part that takes nothing. -/
theorem next (h : procedure.Takes 0 0) (h' : ∀ value, (rest value).Takes pages records) :
    (procedure >>= rest).Takes pages records := by
  have both := h.bind h'
  rw [Nat.zero_add, Nat.zero_add] at both
  exact both

theorem map (h : procedure.Takes pages records) (f : α → β) : (f <$> procedure).Takes pages records := by
  have mapped : (procedure >>= fun value => Procedure.done (f value)).Takes (pages + 0) (records + 0) :=
    h.bind fun _ => done _
  exact mapped

theorem ite {condition : Prop} [Decidable condition] {other : Procedure α} (h : procedure.Takes pages records)
    (h' : other.Takes pages records) : (if condition then procedure else other).Takes pages records := by
  split
  · exact h
  · exact h'

/-- Two first parts that take nothing, with the same rest. -/
theorem either {condition : Prop} [Decidable condition] {other : Procedure α} (h : procedure.Takes 0 0)
    (h' : other.Takes 0 0) (h'' : ∀ value, (rest value).Takes pages records) :
    (if condition then procedure >>= rest else other >>= rest).Takes pages records :=
  .ite (h.next h'') (h'.next h'')

end Procedure.Takes

theorem Procedure.run_request (request : Request) (world : World) :
    (Procedure.request request).run world = world.perform request := by
  rw [Procedure.request, run]
  cases world.perform request with
  | mk outcome after => cases outcome <;> rfl

/-- A request that adds nothing. -/
theorem Procedure.Takes.request {request : Request} (free : request.Free) : (Procedure.request request).Takes 0 0 := by
  intro world alone
  rw [run_request]
  exact World.grows_free alone free

theorem Procedure.Takes.ask {request : Request} {rest : request.Answer → Procedure α} (free : request.Free)
    (h : ∀ answer, (rest answer).Takes pages records) : (Procedure.request request >>= rest).Takes pages records :=
  (Procedure.Takes.request free).next h

/-- A computation that the operation makes on its own. -/
theorem Procedure.Takes.lift {result : Except Fault α} {rest : α → Procedure β}
    (h : ∀ value, result = .ok value → (rest value).Takes pages records) :
    ((liftM result : Procedure α) >>= rest).Takes pages records := by
  cases result with
  | ok value => exact h value rfl
  | error cause => exact .fail _

theorem Procedure.Takes.liftError {result : Except Error α} {rest : α → Procedure β}
    (h : ∀ value, (rest value).Takes pages records) : ((liftM result : Procedure α) >>= rest).Takes pages records := by
  cases result with
  | ok value => exact h value
  | error cause => exact .fail _

end Growth

/-! ## What operations take -/

section Operations

variable {rounds sequence index count : Nat} {heapBlock block : BlockNumber} {record : Log.Record}
  {tuple : List UInt8}

theorem takes_stamp (lsn : Lsn) (pages : List (BlockNumber × Page)) : (Procedure.stamp lsn pages).Takes 0 0 := by
  induction pages with
  | nil => exact .done _
  | cons entry pages ih => exact .ask trivial fun _ => ih

/-- A record goes to the log, and the pages that it describes are stamped. -/
theorem Procedure.Takes.logged {α : Type} {pages : List (BlockNumber × Page)} {rest : Unit → Procedure α}
    (short : record.Short) (h : ∀ value, (rest value).Takes 0 0) :
    (Procedure.logged record pages >>= rest).Takes 0 1 := by
  have appends : (Procedure.append record).Takes 0 1 := by
    intro world alone
    have ran : (Procedure.append record).run world = world.perform (.append record) := run_request _ _
    rw [ran]
    exact World.grows_append alone short
  have logs : (Procedure.logged record pages).Takes (0 + 0) (1 + 0) := by
    rw [Procedure.logged]
    refine appends.bind fun answer => ?_
    cases answer with
    | none => exact .done _
    | some lsn => exact takes_stamp lsn pages
  exact (logs.bind h : Procedure.Takes _ (0 + 0) (1 + 0))

theorem takes_change (block : BlockNumber) (page : Page) : (Procedure.change block page).Takes 0 0 :=
  .ask trivial fun _ => .request trivial

theorem takes_toStart (sequence : Nat) : (Chains.toStart sequence).Takes 0 0 := by
  simp only [Chains.toStart]
  refine .ask trivial fun accessor => .liftError fun chain => .ask trivial fun _ => .ite (.request trivial) ?_
  refine .ask trivial fun _ => .ask trivial fun page => .ite (.request trivial) (.fail _)

theorem takes_toEnd (sequence : Nat) : (Chains.toEnd sequence).Takes 0 0 := by
  simp only [Chains.toEnd]
  exact .ask trivial fun accessor => .liftError fun chain => .request trivial

theorem takes_follow (target : UInt32) (next : BlockNumber) (rounds : Nat) :
    (Chains.follow target next rounds).Takes 0 0 := by
  induction rounds generalizing next with
  | zero => exact .fail _
  | succ rounds ih =>
      simp only [Chains.follow]
      refine .ask trivial fun accessor => .ite (.done _) ?_
      refine .ask trivial fun _ => .ask trivial fun _ => .ask trivial fun page => .ite (.fail _) (.ite (.fail _) ?_)
      exact .ask trivial fun _ => ih _

theorem takes_advance (rounds : Nat) (target : UInt32) : (Chains.advance rounds target).Takes 0 0 := by
  simp only [Chains.advance]
  refine .ask trivial fun accessor => .ite (.done _) ?_
  exact (takes_follow _ _ _).next fun _ => .ask trivial fun accessor => .done _

theorem takes_lookup (rounds : Nat) (heapBlock : BlockNumber) : (RangeMap.lookup rounds heapBlock).Takes 0 0 := by
  simp only [RangeMap.lookup]
  refine .ask trivial fun accessor => .ite (.lift fun target _ => ?_) (.lift fun target _ => .done _)
  exact .ite ((takes_toStart _).next fun _ => takes_advance _ _) (takes_advance _ _)

theorem takes_pinCurrent (block : BlockNumber) : (RangeMap.pinCurrent block).Takes 0 0 := by
  simp only [RangeMap.pinCurrent]
  exact .ask trivial fun accessor => .ite (.ask trivial fun _ => .request trivial) (.done _)

theorem takes_lockPage (rounds : Nat) (heapBlock : BlockNumber) :
    (RangeMap.lockPage rounds heapBlock).Takes 0 0 := by
  simp only [RangeMap.lockPage]
  refine (takes_lookup _ _).next fun found => ?_
  cases found with
  | none => exact .fail _
  | some block =>
      refine (takes_pinCurrent _).next fun _ => .ask trivial fun page => .ite (.done _) ?_
      exact .ask trivial fun accessor => .fail _

theorem takes_readEntry (block : BlockNumber) (index : Nat) : (RangeMap.readEntry block index).Takes 0 0 := by
  simp only [RangeMap.readEntry]
  refine (takes_pinCurrent _).next fun _ => .ask trivial fun page => .ite ?_ (.ask trivial fun accessor => .fail _)
  cases entry page index with
  | ok place => exact .done _
  | error cause => exact .fail _

theorem takes_findFrom (heapBlock block : BlockNumber) (index : Nat) (previous : Option ItemPointer) (rounds : Nat) :
    (RangeMap.findFrom heapBlock block index previous rounds).Takes 0 0 := by
  induction rounds generalizing previous with
  | zero => exact .fail _
  | succ rounds ih =>
      simp only [RangeMap.findFrom]
      refine .ask trivial fun _ => (takes_readEntry _ _).next fun place => .ite (.done _) (.ite ?_ ?_)
      · exact .ask trivial fun accessor => .fail _
      · refine .ask trivial fun _ => .ask trivial fun page => .ite (.ite (.done _) (.lift fun found _ => ?_)) (ih _)
        cases found with
        | none => exact ih _
        | some summary => exact .ite (.done _) (ih _)

theorem takes_find (rounds : Nat) (heapBlock : BlockNumber) : (RangeMap.find rounds heapBlock).Takes 0 0 := by
  simp only [RangeMap.find]
  refine .ask trivial fun accessor => .lift fun start _ => (takes_lookup _ _).next fun found => ?_
  cases found with
  | none => exact .done _
  | some block => exact .lift fun index _ => takes_findFrom _ _ _ _ _

/-! ### Pages for summaries -/

/-- A page that was just added is new. -/
theorem page?_grow {relation : Relation} (room : relation.buffers.size < 2 ^ 32) :
    relation.grow.page? relation.blockCount = some .zero := by
  have number : relation.blockCount.toNat = relation.buffers.size := UInt32.toNat_ofNat_of_lt' room
  simp only [Relation.page?, Relation.buffer?, Relation.grow, number, Array.getElem?_push_size, Option.map_some]

/-- A page that is added and locked is new, so that nothing is done in case it is not. -/
theorem takes_newPage {α : Type} {records : Nat} {use spare : BlockNumber → Page → Procedure α}
    (h : ∀ block page, (use block page).Takes 0 records) :
    (do
      let block ← Procedure.allocate
      let page ← Procedure.acquire block
      if page.isNew then use block page else spare block page).Takes 1 records := by
  intro world alone
  change Relation.Grows _ _ _ ((Procedure.ask .allocate _).run world).2.relation
  rw [Procedure.run]
  rcases World.perform_allocate alone with failed | ⟨room, added⟩
  · rw [failed]
    exact .of_alone alone
  rw [added]
  have grown : world.relation.Grows 1 0 world.relation.grow :=
    ⟨alone, Nat.le_of_eq (Array.size_push _), Nat.le_add_right _ _⟩
  change Relation.Grows _ _ _ ((Procedure.ask (.acquire world.relation.blockCount) _).run _).2.relation
  rw [Procedure.run]
  simp only [World.perform, World.locking, page?_grow room]
  by_cases held : world.held.contains world.relation.blockCount = true
  · simp only [if_pos held]
    exact grown.mono (Nat.le_refl _) (Nat.zero_le _)
  · simp only [if_neg held]
    change Relation.Grows _ _ _ (Procedure.run (if Page.zero.isNew = true then use world.relation.blockCount .zero
      else spare world.relation.blockCount .zero) _).2.relation
    rw [if_pos Page.isNew_zero]
    have used := grown.trans (h world.relation.blockCount .zero ⟨world.relation.grow, world.logFile, world.accessor,
      world.relation.blockCount :: world.held⟩ alone)
    rw [Nat.zero_add] at used
    exact used

theorem takes_lockLast (excluded : Option BlockNumber) (length : Nat) :
    (Placement.lockLast excluded length).Takes 0 0 := by
  simp only [Placement.lockLast]
  refine .ask trivial fun count => .ite (.done _) (.ask trivial fun _ => .ask trivial fun page => .ite (.done _) ?_)
  exact .ask trivial fun _ => .done _

/-- However many rounds there are, one page is added at most. -/
theorem takes_lockSite (excluded : Option BlockNumber) (length rounds : Nat) :
    (Placement.lockSite excluded length rounds).Takes 1 0 := by
  cases rounds with
  | zero => exact .fail _
  | succ rounds =>
      simp only [Placement.lockSite]
      refine (takes_lockLast _ _).next fun site => ?_
      cases site with
      | some site => exact .done _
      | none => exact takes_newPage fun block page => .ask trivial fun _ => .done _

theorem takes_addTo (site : Placement.Site) (tuple : List UInt8) : (Placement.addTo site tuple).Takes 0 0 := by
  simp only [Placement.addTo]
  refine .lift fun added _ => ?_
  cases added with
  | none => exact .fail _
  | some stored => exact .ask trivial fun _ => .done _

theorem takes_store (short : tuple.length < 2 ^ 15) (addressing : Addressing) :
    (store rounds addressing heapBlock index tuple).Takes 1 1 := by
  simp only [store]
  refine ((takes_lockSite _ _ _).bind fun site => ?_ : Procedure.Takes _ (1 + 0) (0 + 1))
  refine (takes_lockPage _ _).next fun locked => .lift fun place _ => .ite (.ask trivial fun _ => .done _) ?_
  refine (takes_addTo _ _).next fun stored => .lift fun page _ => ?_
  refine .ask trivial fun _ => .ask trivial fun _ => .ask trivial fun _ => ?_
  exact .logged short fun _ => .ask trivial fun _ => .done _

theorem takes_move (short : tuple.length < 2 ^ 15) (old : ItemPointer) :
    (Placement.move rounds heapBlock old tuple).Takes 1 1 := by
  simp only [Placement.move]
  refine .ask trivial fun accessor => .ask trivial fun _ => .ask trivial fun oldPage => ?_
  refine .either (.map ?_ _) (.done _) fun present => ?_
  · cases RangeMap.summaryAt oldPage old.offset with
    | ok found => exact .done _
    | error cause => exact .fail _
  refine .ite (.ask trivial fun _ => .done _) ?_
  refine ((takes_lockSite _ _ _).bind fun site => ?_ : Procedure.Takes _ (1 + 0) (0 + 1))
  refine (takes_lockPage _ _).next fun locked => .lift fun index _ => .lift fun place _ => ?_
  refine .ite (.ask trivial fun _ => .done _) ?_
  refine (takes_addTo _ _).next fun stored => .lift fun page _ => .ask trivial fun _ => .lift fun page _ => ?_
  refine .ask trivial fun _ => .ask trivial fun _ => .ask trivial fun _ => .ask trivial fun _ => ?_
  exact .logged short fun _ => .ask trivial fun _ => .done _

/-! ### The range map -/

theorem takes_evacuate (rounds : Nat) (block : BlockNumber) {items : List (Nat × List UInt8)}
    (short : ∀ entry ∈ items, entry.2.length < 2 ^ 15) :
    (Placement.evacuate rounds block items).Takes items.length items.length := by
  induction items with
  | nil => exact .done _
  | cons entry items ih =>
      obtain ⟨offset, bytes⟩ := entry
      simp only [Placement.evacuate]
      refine .ask trivial fun _ => ?_
      cases Summary.decode bytes with
      | none => exact .ask trivial fun accessor => .fail _
      | some summary =>
          rw [List.length_cons, Nat.add_comm]
          exact (takes_move (short _ List.mem_cons_self) _).bind fun _ =>
            ih fun entry mem => short entry (List.mem_cons_of_mem _ mem)

theorem takes_allocate : Procedure.allocate.Takes 1 0 := by
  intro world alone
  have ran : Procedure.allocate.run world = world.perform .allocate := Procedure.run_request _ _
  rw [ran]
  exact World.grows_allocate alone

theorem takes_reachBlock (block : BlockNumber) : (Coverage.reachBlock block).Takes 1 0 := by
  simp only [Coverage.reachBlock]
  refine .ask trivial fun count => .ite (.ask trivial fun _ => .done _) ?_
  exact (takes_allocate.bind fun _ => .done _ : Procedure.Takes _ (1 + 0) (0 + 0))

/-- No round of extending the range map adds more pages or records: a page for the range map, and one
for every item that is moved away. -/
def roundDemand : Nat := 1 + Page.mostItems

theorem takes_extendPlain (rounds : Nat) : (Coverage.extendPlain rounds).Takes roundDemand roundDemand := by
  simp only [Coverage.extendPlain]
  refine .ask trivial fun accessor => .ask trivial fun metapage => .liftError fun contents => ?_
  refine .ite (.ask trivial fun _ => .ask trivial fun _ => .done _) (.ite (.fail _) ?_)
  refine ((takes_reachBlock _).bind fun reached => ?_ :
    Procedure.Takes _ (1 + Page.mostItems) (0 + Page.mostItems)).mono (Nat.le_refl _)
      (Nat.add_le_add_right (Nat.zero_le 1) _)
  refine .ite (.ask trivial fun _ => .done _) (.ask trivial fun page => .ite (.fail _) (.lift fun flagged _ => ?_))
  cases flagged with
  | some page =>
      refine (takes_change _ _).next fun _ => .lift fun items eq => .ask trivial fun _ => ?_
      obtain ⟨few, short⟩ := Page.items_bounds eq
      exact (((takes_evacuate rounds _ short).mono few few).bind fun _ => .done _ :
        Procedure.Takes _ (Page.mostItems + 0) (Page.mostItems + 0))
  | none =>
      refine (takes_change _ _).next fun _ => (takes_change _ _).next fun _ => ?_
      have logs : ∀ metapage page, (do
          Procedure.logged (.extendMap (contents.lastMapPage + 1) false 0 0 invalidBlock)
            [(metaBlock, metapage), (contents.lastMapPage + 1, page)]
          Procedure.remember { accessor with lastMapPage := contents.lastMapPage + 1 }
          Procedure.releaseAll
          return Growth.extended (contents.lastMapPage + 1)).Takes 0 1 := fun _ _ =>
        .logged (by decide : 0 < 2 ^ 15) fun _ => .ask trivial fun _ => .ask trivial fun _ => .done _
      exact (logs _ _).mono (Nat.zero_le _) (by decide)

theorem takes_ensurePlain (limit : Nat) (target : BlockNumber) (rounds : Nat) :
    (Coverage.ensurePlain limit target rounds).Takes (rounds * roundDemand) (rounds * roundDemand) := by
  induction rounds with
  | zero => exact .fail _
  | succ rounds ih =>
      simp only [Coverage.ensurePlain]
      rw [Nat.succ_mul, Nat.add_comm]
      refine .ask trivial fun accessor => .ite (.done _) (.ask trivial fun _ => ?_)
      exact (takes_extendPlain limit).bind fun _ => ih

theorem takes_lockTail (accessor : Accessor) (tail : BlockNumber) : (Chains.lockTail accessor tail).Takes 0 0 := by
  simp only [Chains.lockTail]
  exact .ite (.done _) (.ask trivial fun _ => .ask trivial fun page => .ite (.done _) (.fail _))

theorem takes_extend (sequence : Nat) (target : UInt32) : (Chains.extend sequence target).Takes 1 1 := by
  simp only [Chains.extend]
  refine .ask trivial fun accessor => .liftError fun known => .ask trivial fun metapage => .liftError fun contents => ?_
  refine .ite (.ask trivial fun _ => .ask trivial fun _ => .done _) (.ite (.fail _) ?_)
  refine (takes_allocate.bind fun block => ?_ : Procedure.Takes _ (1 + 0) (0 + 1))
  refine .ask trivial fun page => .ite (.fail _) ((takes_lockTail _ _).next fun tail => ?_)
  refine (takes_change _ _).next fun _ => ?_
  cases tail with
  | some page =>
      refine (takes_change _ _).next fun _ => (takes_change _ _).next fun _ => .ask trivial fun _ => ?_
      exact .logged (by decide : 0 < 2 ^ 15) fun _ => .ask trivial fun _ => .done _
  | none =>
      refine (takes_change _ _).next fun _ => .ask trivial fun _ => ?_
      exact .logged (by decide : 0 < 2 ^ 15) fun _ => .ask trivial fun _ => .done _

theorem takes_extendChainTo (sequence : Nat) (target : UInt32) (rounds : Nat) :
    (Coverage.extendChainTo sequence target rounds).Takes (rounds * roundDemand) (rounds * roundDemand) := by
  induction rounds with
  | zero => exact .fail _
  | succ rounds ih =>
      simp only [Coverage.extendChainTo]
      rw [Nat.succ_mul, Nat.add_comm]
      refine .ask trivial fun accessor => .ite (.done _) (.ask trivial fun _ => ?_)
      exact ((takes_extend _ _).mono (by decide) (by decide)).bind fun _ => (takes_toEnd _).next fun _ => ih

theorem takes_ensureWithin (rounds extensions : Nat) (heapBlock : BlockNumber) :
    (Coverage.ensureWithin rounds extensions heapBlock).Takes (extensions * roundDemand)
      (extensions * roundDemand) := by
  simp only [Coverage.ensureWithin, Coverage.ensureChainedWithin]
  refine .ask trivial fun accessor => .ite ?_ (.lift fun target _ => takes_ensurePlain _ _ _)
  refine (takes_lookup _ _).next fun found => ?_
  cases found with
  | some block => exact .done _
  | none =>
      refine .lift fun target _ => (takes_toEnd _).next fun _ => ?_
      rw [← Nat.add_zero (extensions * roundDemand)]
      refine (takes_extendChainTo _ _ _).bind fun _ => ?_
      refine (takes_lookup _ _).next fun found => ?_
      cases found with
      | some block => exact .done _
      | none => exact .ask trivial fun accessor => .fail _

/-! ### Calls -/

theorem takes_bind (short : tuple.length < 2 ^ 15) (addressing : Addressing) (attempts : Nat) :
    (bind rounds addressing heapBlock index tuple attempts).Takes attempts attempts := by
  induction attempts with
  | zero => exact .fail _
  | succ attempts ih =>
      simp only [bind]
      rw [Nat.add_comm]
      refine .ask trivial fun _ => (takes_find _ _).next fun found => ?_
      rcases found with _ | found
      on_goal 1 => refine (takes_store short _).bind fun stored => ?_
      on_goal 2 => refine (takes_move short _).bind fun stored => ?_
      all_goals
        cases stored with
        | some place => exact .done _
        | none => exact ih

theorem takes_insertWithin (rounds extensions attempts : Nat) (heapBlock : BlockNumber) (payload : List UInt8) :
    (insertWithin rounds extensions attempts heapBlock payload).Takes (extensions * roundDemand + attempts)
      (extensions * roundDemand + attempts) := by
  simp only [insertWithin]
  refine .ask trivial fun accessor => .lift fun start _ => ?_
  by_cases long : maxTupleSize < (Summary.encode ⟨start, payload⟩).length
  · rw [if_pos long]
    exact .fail _
  · rw [if_neg long]
    have short : (Summary.encode ⟨start, payload⟩).length < 2 ^ 15 :=
      Nat.lt_of_le_of_lt (Nat.not_lt.mp long) (by decide)
    exact (takes_ensureWithin _ _ _).bind fun _ => .lift fun index _ => takes_bind short _ _

theorem takes_openIndex (index : String) : (openIndex index).Takes 0 0 := by
  simp only [openIndex]
  exact .ask trivial fun _ => .ask trivial fun page => .liftError fun contents => .request trivial

theorem takes_unbind (place : ItemPointer) : (unbind rounds heapBlock index place).Takes 0 1 := by
  simp only [unbind]
  refine .ask trivial fun _ => .ask trivial fun page => .ite (.ask trivial fun _ => .done _) ?_
  refine (takes_lockPage _ _).next fun locked => .lift fun entry _ => .ite (.ask trivial fun _ => .done _) ?_
  refine .ask trivial fun accessor => .either (.done _) (.map ?_ _) fun taken => .ite (.fail _) ?_
  · cases page.pointer place.offset.toNat with
    | ok pointer => exact .done _
    | error cause => exact .fail _
  · refine .lift fun mapPage _ => .ask trivial fun _ => .lift fun page _ => .ask trivial fun _ => ?_
    refine .ask trivial fun _ => .ask trivial fun _ => ?_
    exact .logged (by decide : 0 < 2 ^ 15) fun _ => .ask trivial fun _ => .done _

theorem takes_desummarize (rounds : Nat) (name : String) (heapBlock : BlockNumber) :
    (desummarize rounds name heapBlock).Takes 0 1 := by
  simp only [desummarize]
  refine (takes_openIndex _).next fun _ => .ask trivial fun accessor => .lift fun start _ =>
    .ite ((takes_toStart _).next fun _ => ?_) ?_
  all_goals
    refine (takes_lookup _ _).next fun found => ?_
    cases found with
    | none => exact .done _
    | some block =>
        exact .lift fun index _ => (takes_readEntry _ _).next fun place => .ite (takes_unbind _) (.done _)

end Operations

/-! ## Rounds that are not needed -/

/-- What the first operation comes to when it succeeds, the second one comes to as well. -/
def Procedure.Entails {α : Type} (procedure other : Procedure α) : Prop :=
  ∀ world value after, procedure.run world = (.ok value, after) → other.run world = (.ok value, after)

section Entailments

variable {α β : Type} {procedure other : Procedure α} {rest rest' : α → Procedure β}

namespace Procedure.Entails

theorem refl (procedure : Procedure α) : procedure.Entails procedure := fun _ _ _ => id

theorem of_fail (failure : Failure) (other : Procedure α) : (Procedure.fail failure).Entails other :=
  fun _ _ _ failed => nomatch (Prod.mk.inj failed).1

theorem bind (h : procedure.Entails other) (h' : ∀ value, (rest value).Entails (rest' value)) :
    (procedure >>= rest).Entails (other >>= rest') := by
  intro world result after ran
  change (procedure.bind rest).run world = _ at ran
  change (other.bind rest').run world = _
  rw [run_bind] at ran ⊢
  cases first : procedure.run world with
  | mk outcome middle =>
      rw [first] at ran
      cases outcome with
      | ok value =>
          rw [h world value middle first]
          exact h' value middle result after ran
      | error failure => cases ran

theorem step (h : ∀ value, (rest value).Entails (rest' value)) : (procedure >>= rest).Entails (procedure >>= rest') :=
  (refl procedure).bind h

theorem ite {condition : Prop} [Decidable condition] {left right left' right' : Procedure α} (h : left.Entails left')
    (h' : right.Entails right') :
    (if condition then left else right).Entails (if condition then left' else right') := by
  split
  · exact h
  · exact h'

end Procedure.Entails

end Entailments

section Rounds

variable {rounds more limit index : Nat} {heapBlock : BlockNumber}

theorem ensurePlain_entails (le : rounds ≤ more) (target : BlockNumber) :
    (Coverage.ensurePlain limit target rounds).Entails (Coverage.ensurePlain limit target more) := by
  induction rounds generalizing more with
  | zero => exact .of_fail _ _
  | succ rounds ih =>
      obtain ⟨more, rfl⟩ := Nat.exists_eq_succ_of_ne_zero (Nat.ne_zero_of_lt le)
      simp only [Coverage.ensurePlain]
      refine .step fun accessor => .ite (.refl _) (.step fun _ => .step fun _ => ?_)
      exact ih (Nat.le_of_succ_le_succ le)

theorem extendChainTo_entails (le : rounds ≤ more) (sequence : Nat) (target : UInt32) :
    (Coverage.extendChainTo sequence target rounds).Entails (Coverage.extendChainTo sequence target more) := by
  induction rounds generalizing more with
  | zero => exact .of_fail _ _
  | succ rounds ih =>
      obtain ⟨more, rfl⟩ := Nat.exists_eq_succ_of_ne_zero (Nat.ne_zero_of_lt le)
      simp only [Coverage.extendChainTo]
      refine .step fun accessor => .ite (.refl _) (.step fun _ => .step fun _ => .step fun _ => ?_)
      exact ih (Nat.le_of_succ_le_succ le)

theorem ensureWithin_entails (le : rounds ≤ more) (heapBlock : BlockNumber) :
    (Coverage.ensureWithin limit rounds heapBlock).Entails (Coverage.ensureWithin limit more heapBlock) := by
  simp only [Coverage.ensureWithin, Coverage.ensureChainedWithin]
  refine .step fun accessor => .ite (.step fun found => ?_) (.step fun target => ensurePlain_entails le _)
  cases found with
  | some block => exact .refl _
  | none => exact .step fun target => .step fun _ => (extendChainTo_entails le _ _).bind fun _ => .refl _

theorem bind_entails {attempts attempts' : Nat} (le : attempts ≤ attempts') (addressing : Addressing)
    (heapBlock : BlockNumber) (index : Nat) (tuple : List UInt8) :
    (bind limit addressing heapBlock index tuple attempts).Entails
      (bind limit addressing heapBlock index tuple attempts') := by
  induction attempts generalizing attempts' with
  | zero => exact .of_fail _ _
  | succ attempts ih =>
      obtain ⟨attempts', rfl⟩ := Nat.exists_eq_succ_of_ne_zero (Nat.ne_zero_of_lt le)
      simp only [bind]
      refine .step fun _ => .step fun found => ?_
      cases found <;>
      · refine .step fun stored => ?_
        cases stored with
        | some place => exact .refl _
        | none => exact ih (Nat.le_of_succ_le_succ le)

theorem insertWithin_entails {attempts attempts' : Nat} (le : rounds ≤ more) (le' : attempts ≤ attempts')
    (heapBlock : BlockNumber) (payload : List UInt8) :
    (insertWithin limit rounds attempts heapBlock payload).Entails
      (insertWithin limit more attempts' heapBlock payload) := by
  simp only [insertWithin]
  refine .step fun accessor => .step fun start => .ite (.refl _) ?_
  exact (ensureWithin_entails le _).bind fun _ => .step fun index => bind_entails le' _ _ _ _

end Rounds

/-! ## Demands of calls -/

/-- A use of an accessor adds no more pages or records. -/
def Use.demand (addressing : Addressing) : Use → Nat
  | .insert heapBlock _ => addressing.roundsFor (addressing.start heapBlock) * roundDemand + 1
  | .ensure heapBlock => addressing.roundsFor heapBlock * roundDemand
  | .find _ => 0

/-- A call adds no more pages or records. -/
def Call.demand (addressing : Addressing) : Call → Nat
  | .openAccessor => 0
  | .use _ what => what.demand addressing
  | .desummarize _ => 1

section Calls

variable {service : Service} {scene : Scene} {addressing : Addressing} {ledger : Ledger} {telling : Telling}
  {accessor : Accessor}

/-- An operation that succeeds alone with few rounds takes no more with many. -/
theorem Procedure.Takes.entails {α : Type} {procedure other : Procedure α} {post : α → Moment → Prop} {moment : Moment}
    {world : World} {pages records : Nat} (takes : procedure.Takes pages records)
    (ensures : Ensures .solo post procedure moment) (models : Models world moment telling)
    (room : world.relation.buffers.size + pages < 2 ^ 32) (entails : procedure.Entails other) :
    world.relation.Grows pages records (other.run world).2.relation := by
  have grows := takes world models.shows.alone
  obtain ⟨value, -, ok, -⟩ := ensures.run models (Nat.lt_of_le_of_lt grows.size_le room)
  rw [entails world value _ (Prod.ext ok rfl)]
  exact grows

/-- Saying what an operation came to changes nothing else. -/
theorem Procedure.run_saying {α β : Type} (procedure : Procedure α) (say : α → β) (world : World) :
    (do return say (← procedure)).run world = ((procedure.run world).1.map say, (procedure.run world).2) := by
  change (procedure.bind fun value => .done (say value)).run world = _
  rw [run_bind]
  cases procedure.run world with
  | mk outcome after => cases outcome <;> rfl

/-- Saying what an operation answered adds nothing. -/
theorem grows_answer {α : Type} {procedure : Procedure α} {answer : α → Answer} {world : World} {pages records : Nat}
    (grows : world.relation.Grows pages records (procedure.run world).2.relation) :
    world.relation.Grows pages records ((do return answer (← procedure)).run world).2.relation := by
  rwa [Procedure.run_saying]

/-- What a use of an accessor adds. -/
theorem Sane.takes_use (sane : Sane service scene addressing ledger telling) (mem : accessor ∈ service.accessors)
    (use : Use) (room : service.size + use.demand addressing < 2 ^ 32) :
    service.relation.Grows (use.demand addressing) (use.demand addressing)
      (use.procedure.run (service.world accessor)).2.relation := by
  have steady := sane.steady mem
  have addressing_eq : accessor.addressing = addressing := steady.knows.addressing_eq.trans sane.addressing_eq
  have few : ∀ heapBlock, addressing.roundsFor heapBlock ≤ Session.rounds := fun heapBlock =>
    Nat.le_trans (addressing.roundsFor_le heapBlock) enoughRounds_le
  cases use with
  | insert heapBlock payload =>
      by_cases fits : payload.length + 4 ≤ maxTupleSize
      · have ensures : Ensures .solo _ (insertWithin Session.rounds (addressing.roundsFor (addressing.start heapBlock))
            1 heapBlock payload) ⟨scene, scene, accessor, []⟩ :=
          insertWithin_spec steady rfl (fun _ => sane.clean) (fun _ => fits)
            (fun (_ : True) => Mode.grants_solo _ _)
            fun _ => ⟨enoughRounds_le, by rw [addressing_eq], Nat.le_refl 1⟩
        have ran := (takes_insertWithin _ _ _ _ _).entails ensures (sane.models accessor) room
          (insertWithin_entails (few _) (by decide : 1 ≤ Session.rounds) heapBlock payload)
        exact grows_answer ran
      · have valid : (service.world accessor).accessor.addressing.Valid := addressing_eq ▸ sane.valid
        have grows : service.relation.Grows (Use.demand addressing (.insert heapBlock payload))
            (Use.demand addressing (.insert heapBlock payload))
            ((insert Session.rounds heapBlock payload).run (service.world accessor)).2.relation := by
          rw [insert_long valid fits]
          exact .of_alone sane.shows.alone
        have same : (service.world accessor).relation = service.relation := rfl
        exact grows_answer (same ▸ grows)
  | ensure heapBlock =>
      have ensures : Ensures .solo _ (Coverage.ensureWithin Session.rounds (addressing.roundsFor heapBlock) heapBlock)
          ⟨scene, scene, accessor, []⟩ :=
        ensureWithin_spec steady rfl (fun _ => sane.clean) fun _ => ⟨enoughRounds_le, by rw [addressing_eq]⟩
      exact grows_answer ((takes_ensureWithin _ _ _).entails ensures (sane.models accessor) room
        (ensureWithin_entails (few _) heapBlock))
  | find heapBlock => exact grows_answer (takes_find _ _ (service.world accessor) sane.shows.alone)

/-- What a call adds. -/
theorem Sane.takes_call (sane : Sane service scene addressing ledger telling) (call : Call)
    (room : service.size + call.demand addressing < 2 ^ 32) :
    service.relation.Grows (call.demand addressing) (call.demand addressing)
      (service.perform call).2.relation := by
  cases call with
  | openAccessor =>
      have grows := takes_openIndex service.relation.name (service.world .unopened) sane.shows.alone
      rw [Service.perform]
      split <;> rename_i eq <;> rw [eq] at grows <;> exact grows
  | use number what =>
      rw [Service.perform]
      split
      · exact .of_alone sane.shows.alone
      · rename_i accessor at_number
        exact sane.takes_use (List.mem_of_getElem? at_number) what room
  | desummarize heapBlock =>
      have grows := takes_desummarize Session.rounds service.relation.name heapBlock (service.world .unopened)
        sane.shows.alone
      exact grows.mono (Nat.zero_le _) (Nat.le_refl _)

/-- A call that has room leaves the service sane and no larger than it may get. -/
theorem Sane.perform_within (sane : Sane service scene addressing ledger telling) (call : Call) (size : Nat)
    (room : service.size + call.demand addressing ≤ size) (small : size < 2 ^ 32) :
    ∃ scene', Sane (service.perform call).2 scene' addressing (ledger.after addressing call) telling ∧
      (service.perform call).2.size ≤ size := by
  have grows := sane.takes_call call (Nat.lt_of_le_of_lt room small)
  have le : (service.perform call).2.size ≤ size := Nat.le_trans grows.size_le room
  obtain ⟨-, scene', -, sane'⟩ := sane.perform call (Nat.lt_of_le_of_lt le small)
  exact ⟨scene', sane', le⟩

section Using

variable {number : Nat} {payload : List UInt8}

/-- Opening the index adds an accessor that knows what the metapage says. -/
theorem Sane.open_within (sane : Sane service scene addressing ledger telling) (size : Nat)
    (room : service.size ≤ size) (small : size < 2 ^ 32) :
    ∃ scene', Sane (service.perform .openAccessor).2 scene' addressing (ledger.after addressing .openAccessor) telling ∧
      (service.perform .openAccessor).2.size ≤ size ∧
      (service.perform .openAccessor).2.relation = service.relation ∧
      (service.perform .openAccessor).2.accessors =
        service.accessors ++ [.ofMetapage service.relation.name (pagesOf service.relation).contents] := by
  obtain ⟨scene', sane', size'⟩ := sane.perform_within .openAccessor size room small
  refine ⟨scene', sane', size', ?_, ?_⟩
  · rw [sane.perform_openAccessor]
  · rw [sane.perform_openAccessor, sane.shows.pages]

/-- Using an accessor comes to what it should if there is room. -/
theorem Sane.use_within (sane : Sane service scene addressing ledger telling)
    (inside : number < service.accessors.length) (use : Use) (size : Nat)
    (room : service.size + use.demand addressing ≤ size) (small : size < 2 ^ 32) :
    ∃ current outcome scene', (service.perform (.use number use)).1 = some outcome ∧
      ledger.AcceptsUse addressing current use outcome ∧
      Sane (service.perform (.use number use)).2 scene' addressing (ledger.used addressing use) telling ∧
      (service.perform (.use number use)).2.size ≤ size := by
  obtain ⟨scene', sane', size'⟩ := sane.perform_within (.use number use) size room small
  obtain ⟨accepts, -⟩ := sane.perform (.use number use) (Nat.lt_of_le_of_lt size' small)
  rw [sane.count] at inside
  rw [Ledger.Accepts, List.getElem?_eq_getElem inside] at accepts
  rw [Ledger.after, if_pos inside] at sane'
  obtain ⟨outcome, answered, accepted⟩ := accepts
  exact ⟨_, outcome, scene', answered, accepted, sane', size'⟩

/-- Inserting a summary that fits into a page comes to a place. -/
theorem Sane.insert_within (sane : Sane service scene addressing ledger telling)
    (inside : number < service.accessors.length) (heapBlock : BlockNumber)
    (fits : payload.length + 4 ≤ maxTupleSize) (size : Nat)
    (room : service.size + (Use.insert heapBlock payload).demand addressing ≤ size) (small : size < 2 ^ 32) :
    ∃ place scene', (service.perform (.use number (.insert heapBlock payload))).1 = some (.ok (.placed place)) ∧
      Sane (service.perform (.use number (.insert heapBlock payload))).2 scene' addressing
        (ledger.rebound (addressing.start heapBlock) (some payload)) telling ∧
      (service.perform (.use number (.insert heapBlock payload))).2.size ≤ size := by
  obtain ⟨_, outcome, scene', answered, accepted, sane', size'⟩ := sane.use_within inside _ size room small
  rw [Ledger.used, if_pos fits] at sane'
  rw [Ledger.AcceptsUse, if_pos fits] at accepted
  obtain ⟨place, rfl⟩ := accepted
  exact ⟨place, scene', answered, sane', size'⟩

/-- An insert that is part of something else comes to a place as well. -/
theorem Sane.insert_returns (sane : Sane service scene addressing ledger telling)
    (at_number : service.accessors[number]? = some accessor) {heapBlock : BlockNumber}
    (fits : payload.length + 4 ≤ maxTupleSize)
    (room : service.size + (Use.insert heapBlock payload).demand addressing < 2 ^ 32) :
    ∃ place, ((insert Session.rounds heapBlock payload).run (service.world accessor)).1 = .ok place := by
  obtain ⟨place, -, answered, -⟩ :=
    sane.insert_within (List.getElem?_eq_some_iff.mp at_number).1 heapBlock fits _ (Nat.le_refl _) room
  rw [Service.perform, at_number] at answered
  have ok := Option.some.inj answered
  rw [Use.procedure, Procedure.run_saying] at ok
  cases ran : ((insert Session.rounds heapBlock payload).run (service.world accessor)).1 with
  | ok place => exact ⟨place, rfl⟩
  | error failure =>
      rw [ran] at ok
      cases ok

/-- Extending the range map up to a table block comes to a page. -/
theorem Sane.ensure_within (sane : Sane service scene addressing ledger telling)
    (inside : number < service.accessors.length) (heapBlock : BlockNumber) (size : Nat)
    (room : service.size + (Use.ensure heapBlock).demand addressing ≤ size) (small : size < 2 ^ 32) :
    ∃ block scene', (service.perform (.use number (.ensure heapBlock))).1 = some (.ok (.reached block)) ∧
      Sane (service.perform (.use number (.ensure heapBlock))).2 scene' addressing ledger.outdated telling ∧
      (service.perform (.use number (.ensure heapBlock))).2.size ≤ size := by
  obtain ⟨_, outcome, scene', answered, ⟨block, rfl⟩, sane', size'⟩ := sane.use_within inside _ size room small
  exact ⟨block, scene', answered, sane', size'⟩

end Using

/-- What calls add. -/
theorem Sane.takes_calls (sane : Sane service scene addressing ledger telling) (calls : List Call)
    (room : service.size + (calls.map (Call.demand addressing)).sum < 2 ^ 32) :
    service.relation.Grows (calls.map (Call.demand addressing)).sum (calls.map (Call.demand addressing)).sum
      (service.run calls).relation := by
  induction calls generalizing service scene ledger with
  | nil => exact .of_alone sane.shows.alone
  | cons call calls ih =>
      rw [List.map_cons, List.sum_cons] at room ⊢
      have first := sane.takes_call call (by omega)
      have size : (service.perform call).2.size ≤ service.size + call.demand addressing := first.size_le
      obtain ⟨-, scene', -, sane'⟩ := sane.perform call (by omega)
      exact first.trans (ih sane' (by omega))

end Calls

end RangeIndex

end Warehouse
