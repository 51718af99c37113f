import Warehouse.Proofs.RangeIndex.Caches
import Warehouse.Proofs.RangeIndex.Traffic
import Warehouse.Proofs.RangeIndex.Turns

/-! # Accessors among others

Workers keep accessors while others extend the range map, store, move and remove summaries. Whenever an operation
holds no lock, others may take their turns, and every operation may be told to stop. The cache of an accessor and
its position in a chain grow old independently of each other. All that every turn keeps up is that what they say was
true once, and this is enough: an accessor finds the page that has the entry of a table block, or none. -/

namespace Warehouse.RangeIndex

/-! ## What accessors are used for -/

/-- What a worker does. Opening the index and removing a summary need no accessor. -/
inductive Errand where
  | openIndex
  | insert (heapBlock : BlockNumber) (payload : List UInt8)
  | find (heapBlock : BlockNumber)
  | lookup (heapBlock : BlockNumber)
  | ensure (heapBlock : BlockNumber)
  /-- Lock the range map page of a table block, and give the lock back. -/
  | lockPage (heapBlock : BlockNumber)
  | desummarize (heapBlock : BlockNumber)
  /-- Flag a page that holds summaries, and move them away. -/
  | evacuate (block : BlockNumber)
  /-- Add the next page to the range map of a plain table. -/
  | extendPlain
  /-- Add a page with a number of the worker's choice to a chain. -/
  | extendChain (sequence : Nat) (number : UInt32)
  | toStart (sequence : Nat)
  | toEnd (sequence : Nat)
  | advance (target : UInt32)

/-- Somebody who may have an accessor. -/
inductive Worker where
  | absent
  | idle (accessor : Accessor)
  /-- The worker is on an errand, and this is what is left of it. -/
  | busy (errand : Errand) (accessor : Accessor) (rest : Procedure (Option BlockNumber))

/-- Flag a page that holds summaries, and move them away. -/
def evacuatePage (rounds : Nat) (block : BlockNumber) : Procedure Unit := do
  Procedure.pin block
  let page ← Procedure.acquire block
  if isRegular page then
    match ← startEvacuating page with
    | none => Procedure.releaseAll
    | some page =>
        Procedure.change block page
        let items ← page.items
        Procedure.releaseAll
        Placement.evacuate rounds block items
  else Procedure.releaseAll

namespace Errand

/-- The operation of an errand. The result is the range map page that it found for a table block. -/
def procedure (index : String) (rounds : Nat) : Errand → Procedure (Option BlockNumber)
  | openIndex => do
      RangeIndex.openIndex index
      return none
  | insert heapBlock payload => do
      let _ ← RangeIndex.insert rounds heapBlock payload
      return none
  | find heapBlock => do
      let _ ← RangeMap.find rounds heapBlock
      return none
  | lookup heapBlock => RangeMap.lookup rounds heapBlock
  | ensure heapBlock => do return some (← Coverage.ensure rounds heapBlock)
  | lockPage heapBlock => do
      let (block, _) ← RangeMap.lockPage rounds heapBlock
      Procedure.releaseAll
      return some block
  | desummarize heapBlock => do
      let _ ← RangeIndex.desummarize rounds index heapBlock
      return none
  | evacuate block => do
      evacuatePage rounds block
      return none
  | extendPlain => do
      let _ ← Coverage.extendPlain rounds
      return none
  | extendChain sequence number => do
      let _ ← Chains.extend sequence number
      return none
  | toStart sequence => do
      Chains.toStart sequence
      return none
  | toEnd sequence => do
      Chains.toEnd sequence
      return none
  | advance target => do
      let _ ← Chains.advance rounds target
      return none

/-- The table block whose range map page an errand is for. -/
def asks : Errand → Option BlockNumber
  | lookup heapBlock => some heapBlock
  | ensure heapBlock => some heapBlock
  | lockPage heapBlock => some heapBlock
  | _ => none

/-- The range map of a plain table has no chains, and that of an append-only one nothing else. -/
def Suits (addressing : Addressing) : Errand → Prop
  | openIndex => False
  | desummarize _ => False
  | extendPlain => addressing.appendOnly = false
  | extendChain .. => addressing.appendOnly = true
  | toStart _ => addressing.appendOnly = true
  | toEnd _ => addressing.appendOnly = true
  | advance _ => addressing.appendOnly = true
  | _ => True

/-- Who may go on an errand, and with which accessor. -/
inductive TakenBy : Errand → Worker → Accessor → Prop
  | opening : TakenBy openIndex .absent .unopened
  | removing {heapBlock : BlockNumber} : TakenBy (desummarize heapBlock) .absent .unopened
  | lent {errand : Errand} {accessor : Accessor} (suits : errand.Suits accessor.addressing) :
      TakenBy errand (.idle accessor) accessor

/-- What a worker is after an errand. -/
def leaves (accessor : Accessor) (outcome : Except Failure (Option BlockNumber)) : Errand → Worker
  | openIndex =>
      match outcome with
      | .ok _ => .idle accessor
      | .error _ => .absent
  | desummarize _ => .absent
  | _ => .idle accessor

/-- What an errand comes to among others. The range map page that it found is that of the table block. -/
def Post (errand : Errand) (found : Option BlockNumber) (later : Moment) : Prop :=
  Steady (.any true) later ∧ ∀ heapBlock block, errand.asks = some heapBlock → found = some block →
    Covers later.scene.image later.contents heapBlock block

end Errand

/-! ## Contracts -/

section Contracts

variable {scene : Scene} {moment : Moment} {accessor : Accessor} {worker : Worker} {errand : Errand} {index : String}
  {rounds : Nat} {gaps : Bool}

theorem Mode.any_ne_solo {gaps : Bool} {statement : Prop} (solo : Mode.any gaps = .solo) : statement :=
  absurd solo (Mode.shared_ne_solo .all)

theorem Mode.any_grants (gaps : Bool) (heapBlock : BlockNumber) (new : Option (List UInt8)) :
    (Mode.any gaps).Grants heapBlock new := by
  intro rights gaps' eq
  obtain ⟨rfl, -⟩ := Mode.shared.inj eq
  trivial

/-- An accessor that is in no chain may follow any links. -/
theorem follow_astray {target : UInt32} {next : BlockNumber} (steady : Steady (.any gaps) moment)
    (astray : moment.accessor.position.sequence = none) :
    Ensures (.any gaps) (fun _ later => Steady (.any gaps) later) (Chains.follow target next rounds) moment := by
  have others : Mode.any gaps ≠ .solo := Mode.shared_ne_solo .all
  induction rounds generalizing moment next with
  | zero => exact ⟨others, steady⟩
  | succ rounds ih =>
      simp only [Chains.follow]
      apply steady.accessor
      intro m1 _ s1 a1
      split
      · exact s1
      apply s1.poll
      intro m2 _ s2 a2
      apply s2.pin Mode.any_ne_solo
      intro m3 _ s3 a3 _
      apply s3.view Mode.any_ne_solo
      intro m4 page _ s4 a4 _
      split
      · exact ⟨others, s4⟩
      split
      · exact ⟨others, s4⟩
      apply s4.remember Mode.any_ne_solo
      intro m5 _ s5 a5
      have same : m5.accessor = moment.accessor := a5.trans (a4.trans (a3.trans (a2.trans a1)))
      have cache : SameCache m5.accessor moment.accessor := .of_eq same.symm
      refine ih (s5.learn (s5.knows.moveTo ⟨cache.1, cache.2, cache.3⟩ (by rw [same]) ?_)) astray
      intro _ sequence eq
      rw [astray] at eq
      contradiction

/-- Walking to a number from any position. -/
theorem advance_among {target : UInt32} (steady : Steady (.any gaps) moment) (free : moment.held = [])
    (chained : moment.accessor.addressing.appendOnly = true) :
    Ensures (.any gaps) (fun _ later => Steady (.any gaps) later) (Chains.advance rounds target) moment := by
  have kind : moment.contents.appendOnly = true :=
    (congrArg Addressing.appendOnly steady.knows.addressing_eq).symm.trans chained
  by_cases nowhere : moment.accessor.position.logical = 0
  · simp only [Chains.advance]
    apply steady.accessor
    intro later _ steady' _
    rw [if_pos nowhere]
    exact steady'
  cases seq : moment.accessor.position.sequence with
  | none =>
      simp only [Chains.advance]
      apply steady.accessor
      intro later _ steady' same
      rw [if_neg nowhere]
      apply (follow_astray steady' (same ▸ seq)).andThen
      intro _ last steady''
      apply steady''.accessor
      intro _ _ steady''' _
      exact steady'''
  | some sequence =>
      obtain ⟨bound, -⟩ := steady.knows.position kind sequence seq nowhere
      apply (advance_spec steady (Moment.holdsRegular_of_free free) kind bound seq Mode.any_ne_solo
        Mode.any_ne_solo).mono
      rintro found later ⟨looks, -⟩
      exact looks.steady

/-- Flagging a page and moving its summaries away. -/
theorem evacuatePage_spec {block : BlockNumber} (steady : Steady (.any gaps) moment) :
    Ensures (.any gaps) (fun _ later => Steady (.any gaps) later) (evacuatePage rounds block) moment := by
  simp only [evacuatePage]
  apply steady.pin Mode.any_ne_solo
  intro m1 w1 s1 a1 _
  apply s1.acquire Mode.any_ne_solo
  intro m2 page w2 s2 a2 at_block _
  have locked : (block :: m2.held) ≠ [] := List.cons_ne_nil _ _
  have released : ∀ {held : List BlockNumber},
      Ensures (.any gaps) (fun _ later => Steady (.any gaps) later) Procedure.releaseAll { m2 with held } := by
    intro held
    exact (s2.lock held).request fun _ _ steady' _ => steady'.lock []
  split
  · rename_i kind
    have regular := s2.sound.shape.regular_of at_block kind
    obtain ⟨eq, -⟩ | ⟨eq, -⟩ := regular.startEvacuating_eq
    · rw [eq, ensures_lift_ok]
      have regular' := (regular_flagged regular).1
      have step : Advance (.any gaps) m2.scene _ := .flag at_block regular
      obtain ⟨items, items_eq, nodup, mem⟩ := regular'.packed.items_eq
      have at_block' := Image.page?_put_same (flagged page) at_block
      have steady' := (s2.lock (block :: m2.held)).advance step
      have movable : Movable m2.accessor.addressing items := by
        have movable := steady'.sound.movable at_block' regular' mem
        rwa [← steady'.knows.addressing_eq] at movable
      apply Ensures.change locked
      rw [items_eq, ensures_lift_ok]
      apply Ensures.locked locked
      have retains : ∀ offset bytes, (offset, bytes) ∈ items →
          Retains (m2.scene.image.put block (flagged page)) ⟨block, UInt16.ofNat offset⟩ bytes := by
        intro offset bytes member
        have small : (UInt16.ofNat offset).toNat = offset := UInt16.toNat_ofNat_of_lt' (movable offset bytes member).1
        exact retains_of_item at_block' regular' (isEvacuating_flagged page)
          (by rw [small]; exact (mem offset bytes).mp member)
      apply (evacuate_spec (steady'.lock []) rfl movable nodup Mode.any_ne_solo Mode.any_ne_solo Mode.any_ne_solo
        (fun _ => retains) Mode.any_ne_solo).mono
      rintro - later ⟨-, steady'', -⟩
      exact steady''
    · rw [eq, ensures_lift_ok]
      exact released
  · exact released

/-- What is known about a worker: an accessor that is not in use knows nothing wrong, and an errand comes to what it
should, whatever others do before its next turn. -/
def Worker.Ready (scene : Scene) : Worker → Prop
  | .absent => True
  | .idle accessor => Knows scene.image scene.image.contents accessor
  | .busy errand accessor rest => ∀ later, Evolves (.any true) scene later →
      Ensures (.any true) errand.Post rest ⟨later, later, accessor, []⟩

theorem Worker.Ready.later {later : Scene} (ready : worker.Ready scene)
    (sound : Sound scene.image scene.image.contents) (evolves : Evolves (.any true) scene later) :
    worker.Ready later := by
  cases worker with
  | absent => exact trivial
  | idle accessor =>
      obtain ⟨contents, sound', grows⟩ := Evolves.sound evolves sound
      obtain rfl := Image.contents_eq sound'.holds
      exact Knows.grow ready grows
  | busy errand accessor rest => exact fun last evolves' => ready last (evolves.trans evolves')

/-- An operation that finds no range map page comes to what its errand should. -/
theorem Ensures.unasked {α : Type} {procedure : Procedure α} {post : α → Moment → Prop}
    (ensures : Ensures (.any true) post procedure moment)
    (steady : ∀ value later, post value later → Steady (.any true) later) :
    Ensures (.any true) errand.Post (do let _ ← procedure; return none) moment := by
  apply ensures.andThen
  intro value later done
  exact ⟨steady value later done, nofun⟩

/-- There are only so many chains. -/
theorem Ensures.chain_missing {α : Type} {post : α → Moment → Prop} {sequence : Nat}
    {rest : Accessor → Chain → Procedure α} (steady : Steady (.any gaps) moment) (beyond : ¬ sequence < sequenceCount) :
    Ensures (.any gaps) post (do
      let accessor ← Procedure.accessor
      let chain ← accessor.chain sequence
      rest accessor chain) moment := by
  apply steady.accessor
  intro later _ steady' _
  rw [Accessor.chain, dif_neg beyond]
  exact ⟨Mode.shared_ne_solo .all, steady'⟩

/-- Every errand comes to what it should when it begins. -/
theorem Errand.ensures (taken : errand.TakenBy worker accessor) (ready : worker.Ready scene)
    (sound : Sound scene.image scene.image.contents) :
    Ensures (.any true) errand.Post (errand.procedure index rounds) ⟨scene, scene, accessor, []⟩ := by
  have grounded : Grounded (.any true) ⟨scene, scene, accessor, []⟩ := ⟨sound, nofun, .refl⟩
  cases taken with
  | opening => exact Ensures.unasked (openIndex_spec grounded rfl Mode.any_ne_solo) fun _ _ opened => opened.2.1
  | removing =>
      apply Ensures.unasked (desummarize_spec grounded rfl Mode.any_ne_solo (Mode.any_grants _ _ _) Mode.any_ne_solo)
      exact fun _ _ removed => removed.2.1
  | lent suits =>
      have steady : Steady (.any true) ⟨scene, scene, accessor, []⟩ := ⟨sound, ready, nofun, .refl⟩
      have unlocked : (Moment.mk scene scene accessor []).HoldsRegular := Moment.holdsRegular_of_free rfl
      have chained : accessor.addressing.appendOnly = true → scene.image.contents.appendOnly = true :=
        fun chained => (congrArg Addressing.appendOnly steady.knows.addressing_eq).symm.trans chained
      cases errand with
      | openIndex => exact suits.elim
      | desummarize => exact suits.elim
      | insert heapBlock payload =>
          apply Ensures.unasked (insert_spec steady rfl Mode.any_ne_solo Mode.any_ne_solo
            (fun _ : True => Mode.any_grants _ _ _) Mode.any_ne_solo)
          exact fun _ _ inserted => inserted.2.1 trivial
      | find heapBlock =>
          exact Ensures.unasked (find_spec steady rfl Mode.any_ne_solo) fun _ _ found => found.1.steady
      | lookup heapBlock =>
          apply (lookup_spec heapBlock steady unlocked Mode.any_ne_solo).mono
          rintro found later ⟨looks, present, -⟩
          refine ⟨looks.steady, fun other block asks eq => ?_⟩
          obtain rfl := Option.some.inj asks
          exact (present block eq).1
      | ensure heapBlock =>
          apply (ensure_spec steady rfl Mode.any_ne_solo Mode.any_ne_solo).andThen
          rintro reached later ⟨-, steady', -, covered, -⟩
          refine ⟨steady', fun other block asks eq => ?_⟩
          obtain rfl := Option.some.inj asks
          obtain rfl := Option.some.inj eq
          exact covered
      | lockPage heapBlock =>
          apply (lockPage_spec heapBlock steady unlocked Mode.any_ne_solo Mode.any_ne_solo).andThen
          rintro ⟨block, page⟩ middle locked
          apply locked.steady.releaseAll
          intro later waits steady' _
          refine ⟨steady'.lock [], fun other reached asks eq => ?_⟩
          obtain rfl := Option.some.inj asks
          obtain rfl := Option.some.inj eq
          exact locked.steady.covers waits locked.covered
      | evacuate block => exact Ensures.unasked (evacuatePage_spec steady) fun _ _ => id
      | extendPlain =>
          apply Ensures.unasked (@extendPlain_spec _ _ _ 0 steady rfl suits Mode.any_ne_solo Mode.any_ne_solo
            Mode.any_ne_solo)
          exact fun _ _ extended => extended.2.1
      | extendChain sequence number =>
          by_cases bound : sequence < sequenceCount
          · exact Ensures.unasked (extend_spec steady rfl suits bound nofun) fun _ _ extended => extended.2.1
          · exact (Ensures.chain_missing steady bound).bind
      | toStart sequence =>
          by_cases bound : sequence < sequenceCount
          · exact Ensures.unasked (toStart_spec steady unlocked (chained suits) bound) fun _ _ moved => moved.1.steady
          · exact (Ensures.chain_missing steady bound).bind
      | toEnd sequence =>
          by_cases bound : sequence < sequenceCount
          · exact Ensures.unasked (toEnd_spec steady (chained suits) bound) fun _ _ moved => moved.1.steady
          · exact (Ensures.chain_missing steady bound).bind
      | advance target => exact Ensures.unasked (advance_among steady rfl suits) fun _ _ => id

end Contracts

/-! ## A crowd of workers -/

/-- An index and those who work with it. -/
structure Crowd where
  relation : Relation
  logFile : ByteArray
  workers : Nat → Worker

/-- Something that happens to an index. -/
inductive Incident where
  | began (worker : Nat) (errand : Errand)
  /-- A worker took a turn, and the errand goes on. -/
  | went (worker : Nat)
  | ended (worker : Nat) (errand : Errand) (outcome : Except Failure (Option BlockNumber))
  /-- Others added pages. -/
  | grew (count : Nat)

namespace Crowd

/-- What a worker acts on. -/
def world (crowd : Crowd) (accessor : Accessor) : World :=
  ⟨crowd.relation, crowd.logFile, accessor, []⟩

/-- The crowd after something that a worker did. -/
def after (crowd : Crowd) (worker : Nat) (world : World) (becomes : Worker) : Crowd :=
  ⟨world.relation, world.logFile, Function.update crowd.workers worker becomes⟩

@[simp]
theorem workers_after_same (crowd : Crowd) (worker : Nat) (world : World) (becomes : Worker) :
    (crowd.after worker world becomes).workers worker = becomes := Function.update_self ..

theorem workers_after_other {worker other : Nat} (ne : other ≠ worker) (crowd : Crowd) (world : World)
    (becomes : Worker) : (crowd.after worker world becomes).workers other = crowd.workers other :=
  Function.update_of_ne ne ..

/-- An index that nobody works with yet. -/
def ofService (service : Service) : Crowd := ⟨service.relation, service.logFile, fun _ => .absent⟩

/-- The number of pages. -/
def size (crowd : Crowd) : Nat := crowd.relation.buffers.size

/-- The pages of the index. -/
def image (crowd : Crowd) : Image := pagesOf crowd.relation

/-- A worker begins an errand or takes a turn, or others add pages. A loop of an errand may go on for any number of
rounds. -/
inductive Step (crowd : Crowd) : Incident → Crowd → Prop
  | begin {worker : Nat} {errand : Errand} {accessor : Accessor} (rounds : Nat)
      (taken : errand.TakenBy (crowd.workers worker) accessor) :
      Step crowd (.began worker errand) (crowd.after worker (crowd.world accessor)
        (.busy errand accessor (errand.procedure crowd.relation.name rounds)))
  | go {worker : Nat} {errand : Errand} {accessor : Accessor} {procedure rest : Procedure (Option BlockNumber)}
      {world : World} (at_worker : crowd.workers worker = .busy errand accessor procedure)
      (turn : Turn procedure (crowd.world accessor) (.paused rest) world) :
      Step crowd (.went worker) (crowd.after worker world (.busy errand world.accessor rest))
  | finish {worker : Nat} {errand : Errand} {accessor : Accessor} {procedure : Procedure (Option BlockNumber)}
      {world : World} {outcome : Except Failure (Option BlockNumber)}
      (at_worker : crowd.workers worker = .busy errand accessor procedure)
      (turn : Turn procedure (crowd.world accessor) (.ended outcome) world) :
      Step crowd (.ended worker errand outcome) (crowd.after worker world (errand.leaves world.accessor outcome))
  | grow (count : Nat) : Step crowd (.grew count) { crowd with relation := crowd.relation.growBy count }

/-- What may come of an index and its workers in time. -/
inductive Reaches (first : Crowd) : Crowd → Prop
  | refl : Reaches first first
  | step {crowd last : Crowd} {incident : Incident} (reaches : Reaches first crowd) (step : crowd.Step incident last) :
      Reaches first last

variable {first crowd last : Crowd} {incident : Incident}

theorem Step.size_le (step : crowd.Step incident last) : crowd.size ≤ last.size := by
  cases step with
  | begin => exact Nat.le_refl _
  | go at_worker turn => exact turn.size_le
  | finish at_worker turn => exact turn.size_le
  | grow count => exact size_growBy crowd.relation count

theorem Reaches.trans {middle : Crowd} (reaches : Reaches first middle) (reaches' : Reaches middle last) :
    Reaches first last := by
  induction reaches' with
  | refl => exact reaches
  | step _ step ih => exact ih.step step

theorem after_after (crowd : Crowd) (worker : Nat) (world world' : World) (becomes becomes' : Worker) :
    (crowd.after worker world becomes).after worker world' becomes' = crowd.after worker world' becomes' := by
  simp only [after, Function.update_idem]

theorem reaches_of_turns {worker : Nat} {errand : Errand} {accessor : Accessor}
    {procedure : Procedure (Option BlockNumber)} {world : World} {outcome : Except Failure (Option BlockNumber)}
    (turns : Turns procedure (crowd.world accessor) outcome world)
    (at_worker : crowd.workers worker = .busy errand accessor procedure) :
    crowd.Reaches (crowd.after worker world (errand.leaves world.accessor outcome)) := by
  generalize begins : crowd.world accessor = start at turns
  induction turns generalizing crowd accessor with
  | last turn =>
      subst begins
      exact .step .refl (.finish at_worker turn)
  | @more procedure rest world middle after outcome turn free turns ih =>
      subst begins
      have again : (crowd.after worker middle (.busy errand middle.accessor rest)).world middle.accessor = middle := by
        simp only [Crowd.world, Crowd.after, ← free]
      have reaches := ih (workers_after_same ..) again
      rw [after_after] at reaches
      exact Reaches.trans (.step .refl (.go at_worker turn)) reaches

/-- An errand that nobody interrupts does what it does in one run. -/
theorem reaches_uninterrupted {worker : Nat} {errand : Errand} {accessor : Accessor} {rounds : Nat} {world : World}
    {outcome : Except Failure (Option BlockNumber)} (taken : errand.TakenBy (crowd.workers worker) accessor)
    (eq : (errand.procedure crowd.relation.name rounds).run (crowd.world accessor) = (outcome, world)) :
    crowd.Reaches (crowd.after worker world (errand.leaves world.accessor outcome)) := by
  let begun := crowd.after worker (crowd.world accessor)
    (.busy errand accessor (errand.procedure crowd.relation.name rounds))
  have turns := turns_run (errand.procedure crowd.relation.name rounds) (begun.world accessor)
  have same : begun.world accessor = crowd.world accessor := rfl
  rw [same, eq] at turns
  have reaches : begun.Reaches _ := reaches_of_turns turns (workers_after_same ..)
  rw [after_after] at reaches
  exact Reaches.trans (.step .refl (.begin rounds taken)) reaches

/-- The index is sound, and every worker is as the contracts say. Nothing is asked about gaps between the numbers of a
chain. -/
structure Kept (addressing : Addressing) (crowd : Crowd) (scene : Scene) : Prop where
  shows : Shows crowd.relation crowd.logFile scene
  sound : Sound scene.image scene.image.contents
  addressing_eq : scene.image.contents.addressing = addressing
  ready : ∀ worker, (crowd.workers worker).Ready scene

end Crowd

section Crowds

variable {addressing : Addressing} {service : Service} {first crowd last : Crowd} {incident : Incident}
  {scene : Scene} {world : World} {later : Moment} {becomes : Worker}

theorem Sane.kept {ledger : Ledger} (sane : Sane service scene addressing ledger) :
    Crowd.Kept addressing (.ofService service) scene :=
  ⟨sane.shows, sane.sound, sane.addressing_eq, fun _ => trivial⟩

/-- After an errand the worker has an accessor that knows nothing wrong, or none. -/
theorem Errand.ready_leaves {accessor : Accessor} (errand : Errand) (outcome : Except Failure (Option BlockNumber))
    (knows : Knows scene.image scene.image.contents accessor) : (errand.leaves accessor outcome).Ready scene := by
  cases errand with
  | openIndex =>
      cases outcome with
      | ok => exact knows
      | error => exact trivial
  | desummarize => exact trivial
  | _ => exact knows

namespace Crowd.Kept

/-- What operations do keeps up what is known of a crowd. -/
theorem next (kept : crowd.Kept addressing scene) {after : Scene} (evolves : Evolves (.any true) scene after)
    (shows : Shows last.relation last.logFile after)
    (ready : ∀ worker, last.workers worker = crowd.workers worker ∨ (last.workers worker).Ready after) :
    last.Kept addressing after := by
  obtain ⟨contents, sound, grows⟩ := Evolves.sound evolves kept.sound
  obtain rfl := Image.contents_eq sound.holds
  refine ⟨shows, sound, grows.addressing_eq.trans kept.addressing_eq, fun worker => ?_⟩
  rcases ready worker with same | new
  · rw [same]
    exact (kept.ready worker).later kept.sound evolves
  · exact new

/-- A turn of a worker keeps up what is known of a crowd. -/
theorem after (kept : crowd.Kept addressing scene) (models : Models world later)
    (evolves : Evolves (.any true) scene later.scene) (becomes_ready : becomes.Ready later.scene) (worker : Nat) :
    (crowd.after worker world becomes).Kept addressing later.scene := by
  refine kept.next evolves models.shows fun other => ?_
  by_cases here : other = worker
  · subst here
    right
    rwa [Crowd.workers_after_same]
  · exact .inl (Crowd.workers_after_other here ..)

/-- Whatever happens next is something that operations do. A range map page that an errand found is that of the table
block that it was for. -/
theorem step (kept : crowd.Kept addressing scene) (step : crowd.Step incident last) (room : last.size < 2 ^ 32) :
    ∃ after, last.Kept addressing after ∧ ∀ worker errand heapBlock block,
      incident = .ended worker errand (.ok (some block)) → errand.asks = some heapBlock →
        Covers after.image after.image.contents heapBlock block := by
  cases step with
  | @begin worker errand accessor rounds taken =>
      have models : Models (crowd.world accessor) ⟨scene, scene, accessor, []⟩ := ⟨kept.shows, rfl, rfl⟩
      refine ⟨scene, kept.after models .refl (fun later evolves => ?_) worker, nofun⟩
      obtain ⟨contents, sound, -⟩ := Evolves.sound evolves kept.sound
      obtain rfl := Image.contents_eq sound.holds
      exact Errand.ensures taken ((kept.ready worker).later kept.sound evolves) sound
  | @go worker errand accessor procedure rest world at_worker turn =>
      have ready := kept.ready worker
      rw [at_worker] at ready
      obtain ⟨later, models, evolves, keeps⟩ := turn.keeps (ready scene .refl) ⟨kept.shows, rfl, rfl⟩
        (fun _ => rfl) (Mode.shared_ne_solo .all) (fun _ _ post => post.1) room
      have ready' : (Worker.busy errand world.accessor rest).Ready later.scene := by
        rw [models.accessor]
        exact keeps
      exact ⟨later.scene, kept.after models evolves ready' worker, nofun⟩
  | @finish worker errand accessor procedure world outcome at_worker turn =>
      have ready := kept.ready worker
      rw [at_worker] at ready
      obtain ⟨later, models, evolves, keeps⟩ := turn.keeps (ready scene .refl) ⟨kept.shows, rfl, rfl⟩
        (fun _ => rfl) (Mode.shared_ne_solo .all) (fun _ _ post => post.1) room
      have knows : Knows later.scene.image later.scene.image.contents world.accessor := by
        rw [models.accessor]
        cases outcome with
        | ok => exact keeps.1.knows
        | error => exact keeps.2.knows
      refine ⟨later.scene, kept.after models evolves (errand.ready_leaves outcome knows) worker, ?_⟩
      rintro other errand' heapBlock block ended asks
      obtain ⟨-, rfl, rfl⟩ := Incident.ended.inj ended
      exact keeps.2 heapBlock block asks rfl
  | grow count =>
      have size : (crowd.relation.growBy count).buffers.size < 2 ^ 32 := room
      rw [buffers_growBy, ← size_pagesOf, kept.shows.pages] at size
      exact ⟨_, kept.next (evolves_growBy count size) (kept.shows.growBy count) fun _ => .inl rfl, nofun⟩

/-- Whatever happens keeps up what is known of a crowd. -/
theorem run (kept : first.Kept addressing scene) (reaches : first.Reaches last) (room : last.size < 2 ^ 32) :
    ∃ after, last.Kept addressing after := by
  induction reaches with
  | refl => exact ⟨scene, kept⟩
  | step reaches step ih =>
      obtain ⟨middle, kept'⟩ := ih (Nat.lt_of_le_of_lt step.size_le room)
      obtain ⟨after, kept'', -⟩ := kept'.step step room
      exact ⟨after, kept''⟩

/-- What is known about an idle worker who is about to begin. -/
theorem informed (kept : crowd.Kept addressing scene) {worker : Nat} {accessor : Accessor}
    (idle : crowd.workers worker = .idle accessor) :
    (crowd.world accessor).Informed crowd.image.contents := by
  have ready := kept.ready worker
  rw [idle] at ready
  have image_eq : crowd.image = scene.image := kept.shows.pages
  have shape : Geometry crowd.image crowd.image.contents := by
    rw [image_eq]
    exact kept.sound.shape
  have knows : Knows crowd.image crowd.image.contents accessor := by
    rw [image_eq]
    exact ready
  exact ⟨kept.shows.alone, fun _ _ _ _ => List.not_mem_nil, shape, knows⟩

theorem addressing_of_idle (kept : crowd.Kept addressing scene) {worker : Nat} {accessor : Accessor}
    (idle : crowd.workers worker = .idle accessor) : accessor.addressing = addressing := by
  have ready := kept.ready worker
  rw [idle] at ready
  exact Knows.addressing_eq ready |>.trans kept.addressing_eq

/-- An accessor that finds the entry of a table block if there is one finds the one that is there. -/
theorem found_of_sights (kept : crowd.Kept addressing scene) {worker : Nat} {accessor accessor' : Accessor}
    {heapBlock block : BlockNumber} {found : Option BlockNumber} (idle : crowd.workers worker = .idle accessor)
    (sights : accessor.Sights heapBlock) (covered : Covers crowd.image crowd.image.contents heapBlock block)
    (run : (RangeMap.lookup Session.rounds heapBlock).run (crowd.world accessor) =
      (.ok found, crowd.world accessor')) : found ≠ none := by
  have enough : 2 ^ 32 < Session.rounds := by decide
  obtain ⟨value, later, run', -, -, missing⟩ := (lookup_results (kept.informed idle) enough).returns
  obtain rfl := Except.ok.inj (congrArg Prod.fst (run'.symm.trans run))
  intro none
  rcases missing none with blind | absent
  · exact sights.not_blind blind
  · exact absent block covered

end Crowd.Kept

end Crowds

/-! ## The page of an entry -/

/-- The block is the range map page that has the entry of a table block, and no other page has it. -/
structure Image.HasEntryAt (image : Image) (heapBlock block : BlockNumber) : Prop where
  covered : Covers image image.contents heapBlock block
  map : ∃ page, image.page? block = some page ∧ isMap page = true
  only : ∀ other, Covers image image.contents heapBlock other → other = block
  /-- In an append-only index, the page is in the chain of the table block alone, and has the number of the entry. -/
  chained : image.contents.appendOnly = true → ∀ sequence < sequenceCount, ∀ number,
    InChain image image.contents sequence block number →
      sequence = sequenceOf heapBlock ∧ image.contents.addressing.logicalPage heapBlock = .ok number
  plain : image.contents.appendOnly = false → image.contents.addressing.mapBlock heapBlock = .ok block

theorem Geometry.hasEntryAt {image : Image} {heapBlock block : BlockNumber} (shape : Geometry image image.contents)
    (covered : Covers image image.contents heapBlock block) : image.HasEntryAt heapBlock block where
  covered := covered
  map := by
    obtain ⟨page, at_block, map⟩ := shape.covers_page covered
    exact ⟨page, at_block, isMap_iff.mpr map.kind⟩
  only _ other := shape.covers_unique other covered
  chained kind sequence bound number inside := by
    rw [Covers, if_pos kind] at covered
    obtain ⟨pages, chained⟩ := shape.chained kind
    obtain ⟨mem, eq⟩ := (shape.inChain_iff chained bound).mp inside
    obtain ⟨mem', eq'⟩ := (shape.inChain_iff chained (sequenceOf_lt _)).mp covered
    refine ⟨chained.disjoint block _ _ bound (sequenceOf_lt _) mem mem', ?_⟩
    rw [Addressing.logicalPage_eq shape.valid kind, ← eq, eq']
  plain kind := by
    rw [Covers, kind] at covered
    rw [Addressing.mapBlock_eq shape.valid kind, covered.1]

/-- However old what an accessor knows is, it finds the page that has the entry of a table block or none. Workers open
the index, use their accessors for whatever they are for, may be told to stop, and have their turns whenever nobody
holds a lock, so that the cache of an accessor and its position may be out of date in any combination. Then a lookup by
any of the accessors returns, and what it finds is the page that has the entry now. Extending the range map up to a
table block whose entry it has comes to the page of the entry, and neither adds a page nor changes one. The page that an
operation finds among others has the entry when the operation ends. -/
theorem outdated_accessors_find_entries {log : Option Log.Writer} {file : ByteArray} {pagesPerRange : UInt32}
    (name : String) (appendOnly : Bool)
    (bounds : 1 ≤ pagesPerRange.toNat ∧ pagesPerRange.toNat ≤ maxPagesPerRange)
    (at_end : ∀ writer, log = some writer → writer.AtEnd file) :
    ∃ service, Service.create (.empty name log) file pagesPerRange appendOnly = .ok service ∧
      ∀ crowd, Crowd.Reaches (.ofService service) crowd → crowd.size < 2 ^ 32 →
        (∀ worker accessor heapBlock, crowd.workers worker = .idle accessor →
          (∃ found accessor', (RangeMap.lookup Session.rounds heapBlock).run (crowd.world accessor) =
              (.ok found, crowd.world accessor') ∧
            ∀ block, found = some block → crowd.image.HasEntryAt heapBlock block) ∧
          ∀ block, crowd.image.HasEntryAt heapBlock block → ∃ accessor',
            (Coverage.ensure Session.rounds heapBlock).run (crowd.world accessor) =
              (.ok block, crowd.world accessor')) ∧
        ∀ worker errand heapBlock block next, crowd.Step (.ended worker errand (.ok (some block))) next →
          next.size < 2 ^ 32 → errand.asks = some heapBlock → next.image.HasEntryAt heapBlock block := by
  obtain ⟨service, created, sane⟩ := exists_created name appendOnly bounds at_end
  refine ⟨service, created, fun crowd reaches room => ?_⟩
  obtain ⟨scene, kept⟩ := sane.kept.run reaches room
  have enough : 2 ^ 32 < Session.rounds := by decide
  refine ⟨fun worker accessor heapBlock idle => ?_, fun worker errand heapBlock block next step room' asks => ?_⟩
  · have informed := kept.informed idle
    constructor
    · obtain ⟨found, later, run, learns, present, -⟩ := (lookup_results informed enough).returns
      refine ⟨found, later.accessor, run.trans (congrArg _ learns.same), fun block eq => ?_⟩
      exact informed.shape.hasEntryAt (present block eq).1
    · intro block has
      obtain ⟨reached, later, run, rfl, learns, -⟩ := (ensure_results informed rfl has.covered enough).returns
      exact ⟨later.accessor, run.trans (congrArg _ learns.same)⟩
  · obtain ⟨after, kept', found⟩ := kept.step step room'
    have image_eq : next.image = after.image := kept'.shows.pages
    rw [image_eq]
    exact kept'.sound.shape.hasEntryAt (found worker errand heapBlock block rfl asks)

/-! ## Errands without interruption -/

/-- The pages and the log are those of a service. -/
structure Crowd.Shares (crowd : Crowd) (service : Service) : Prop where
  relation : crowd.relation = service.relation
  logFile : crowd.logFile = service.logFile

section Uninterrupted

variable {service : Service} {scene : Scene} {addressing : Addressing} {ledger : Ledger} {crowd : Crowd}
  {worker number : Nat} {accessor : Accessor} {heapBlock : BlockNumber} {payload : List UInt8}

theorem Crowd.Shares.world_eq (shares : crowd.Shares service) (accessor : Accessor) :
    crowd.world accessor = service.world accessor := by
  rw [Crowd.world, Service.world, shares.relation, shares.logFile]

/-- A worker opens the index, which is a call. -/
theorem Sane.crowd_opens (sane : Sane service scene addressing ledger) (shares : crowd.Shares service)
    (absent : crowd.workers worker = .absent) :
    ∃ last accessor, crowd.Reaches last ∧ last.Shares (service.perform .openAccessor).2 ∧
      last.workers worker = .idle accessor ∧
      (service.perform .openAccessor).2.accessors = service.accessors ++ [accessor] ∧
      ∀ other, other ≠ worker → last.workers other = crowd.workers other := by
  have taken : Errand.openIndex.TakenBy (crowd.workers worker) .unopened := absent ▸ .opening
  have opened : (Errand.openIndex.procedure crowd.relation.name 0).run (crowd.world .unopened) =
      (.ok none, service.world (.ofMetapage service.relation.name scene.image.contents)) := by
    rw [Errand.procedure, Procedure.run_saying, shares.world_eq, shares.relation, sane.run_openIndex]
    rfl
  rw [sane.perform_openAccessor]
  exact ⟨_, _, Crowd.reaches_uninterrupted taken opened, ⟨rfl, rfl⟩, Crowd.workers_after_same .., rfl,
    fun other ne => Crowd.workers_after_other ne ..⟩

/-- A worker inserts a summary, which is a call. -/
theorem Sane.crowd_inserts (sane : Sane service scene addressing ledger) (shares : crowd.Shares service)
    (at_number : service.accessors[number]? = some accessor) (idle : crowd.workers worker = .idle accessor)
    (heapBlock : BlockNumber) (fits : payload.length + 4 ≤ maxTupleSize)
    (room : service.size + (Use.insert heapBlock payload).demand addressing < 2 ^ 32) :
    ∃ last, crowd.Reaches last ∧ last.Shares (service.perform (.use number (.insert heapBlock payload))).2 ∧
      ∀ other, other ≠ worker → last.workers other = crowd.workers other := by
  have taken : (Errand.insert heapBlock payload).TakenBy (crowd.workers worker) accessor := idle ▸ .lent trivial
  obtain ⟨place, ok⟩ := sane.insert_returns at_number fits room
  have inserted :
      ((Errand.insert heapBlock payload).procedure crowd.relation.name Session.rounds).run (crowd.world accessor) =
        (.ok none, ((Use.insert heapBlock payload).procedure.run (service.world accessor)).2) := by
    rw [Errand.procedure, Use.procedure, Procedure.run_saying, Procedure.run_saying, shares.world_eq, ok]
    rfl
  rw [Service.perform, at_number]
  exact ⟨_, Crowd.reaches_uninterrupted taken inserted, ⟨rfl, rfl⟩, fun other ne => Crowd.workers_after_other ne ..⟩

/-- A worker whose cache of a chain is up to date adds the next page to it. -/
theorem Sane.crowd_extends (sane : Sane service scene addressing ledger) (sequence : Nat) (target : UInt32)
    (shares : crowd.Shares service) (chained : addressing.appendOnly = true)
    (at_number : service.accessors[number]? = some accessor) (idle : crowd.workers worker = .idle accessor)
    (bound : sequence < sequenceCount) (current : accessor.chainOf sequence = service.contents.chain sequence)
    (next : target.toNat = (service.contents.chain sequence).lastLogical.toNat + 1)
    (room : service.size + 1 < 2 ^ 32) :
    ∃ last service' scene' accessor', crowd.Reaches last ∧ last.Shares service' ∧
      last.workers worker = .idle accessor' ∧ service'.accessors = service.accessors.set number accessor' ∧
      Sane service' scene' addressing ledger.outdated ∧ service'.size ≤ service.size + 1 ∧
      accessor'.chainOf sequence = service'.contents.chain sequence ∧
      (service'.contents.chain sequence).lastLogical = target ∧
      ∀ other, other ≠ worker → last.workers other = crowd.workers other := by
  have mem := List.mem_of_getElem? at_number
  have steady := sane.steady mem
  have suits : accessor.addressing.appendOnly = true :=
    (congrArg Addressing.appendOnly (steady.knows.addressing_eq.trans sane.addressing_eq)).trans chained
  have contents : service.contents = scene.image.contents := congrArg Image.contents sane.shows.pages
  rw [contents] at current next
  have contract : Ensures .solo _ (Chains.extend sequence target) ⟨scene, scene, accessor, []⟩ :=
    extend_spec steady rfl suits bound fun _ => current ▸ next
  have grows := takes_extend sequence target (service.world accessor) sane.shows.alone
  obtain ⟨growth, later, ok, models, -, steady', -, alone⟩ :=
    contract.run (sane.models accessor) (Nat.lt_of_le_of_lt grows.size_le room)
  obtain ⟨drift, loose, current', progress⟩ := alone rfl
  have clean : ∀ block, ¬ later.scene.Loose block := fun block h => sane.clean block (loose block h)
  have known : ∀ other ∈ service.accessors.set number _, _ := Sane.known_set (models.accessor ▸ steady'.knows)
  have sane' : Sane _ later.scene addressing ledger.outdated :=
    sane.outdate models steady' drift.evolves clean (sane.binds_drift drift) known List.length_set rfl
  have taken : (Errand.extendChain sequence target).TakenBy (crowd.workers worker) accessor := idle ▸ .lent suits
  have extended : ((Errand.extendChain sequence target).procedure crowd.relation.name 0).run (crowd.world accessor) =
      (.ok none, ((Chains.extend sequence target).run (service.world accessor)).2) := by
    rw [Errand.procedure, Procedure.run_saying, shares.world_eq, ok]
    rfl
  have contents' : (pagesOf ((Chains.extend sequence target).run (service.world accessor)).2.relation).contents =
      later.contents := congrArg Image.contents models.shows.pages
  refine ⟨_, _, later.scene, _, Crowd.reaches_uninterrupted taken extended, ⟨rfl, rfl⟩, Crowd.workers_after_same ..,
    rfl, sane', grows.size_le, ?_, ?_, fun other ne => Crowd.workers_after_other ne ..⟩
  · rw [Service.contents, contents', models.accessor]
    exact current'
  · rw [Service.contents, contents']
    have grown := progress.resolve_left fun stale => stale.1 current
    exact UInt32.toNat_inj.mp (grown.trans ((congrArg (·.lastLogical.toNat + 1) current).trans next.symm))

end Uninterrupted

/-- A worker opens a new append-only index and adds the first page to a chain. Then another worker opens the index, and
the first one inserts a summary that needs a second page of the chain. The cache of the second worker ends with the
first page, but its accessor finds the second one by following the links, and comes to the same page when it extends the
range map. -/
theorem outdated_accessors_find_entries_overtaken : ∃ service crowd accessor block accessor' accessor'',
    Service.create (.empty "index" none) .empty 1 true = .ok service ∧ Crowd.Reaches (.ofService service) crowd ∧
      crowd.size < 2 ^ 32 ∧ crowd.workers 1 = .idle accessor ∧ (accessor.chainOf 0).lastLogical = 1 ∧
      2 ≤ (crowd.image.contents.chain 0).lastLogical ∧
      (RangeMap.lookup Session.rounds 5454).run (crowd.world accessor) = (.ok (some block), crowd.world accessor') ∧
      crowd.image.HasEntryAt 5454 block ∧
      (Coverage.ensure Session.rounds 5454).run (crowd.world accessor) = (.ok block, crowd.world accessor'') := by
  have bounds : 1 ≤ (1 : UInt32).toNat ∧ (1 : UInt32).toNat ≤ maxPagesPerRange := by decide
  have at_end := Log.Writer.atEnd_of_none_eq .empty
  obtain ⟨service, created, finds⟩ := outdated_accessors_find_entries "index" true bounds at_end
  have sane := sane_of_create bounds at_end created
  have one := size_of_create bounds at_end created
  have nobody : service.accessors = [] := List.length_eq_zero_iff.mp sane.count
  have empty : (pagesOf service.relation).contents.chain 0 = .empty := by
    rw [sane.shows.pages, contents_created, chain_new]
  have shares : Crowd.Shares (.ofService service) service := ⟨rfl, rfl⟩
  -- the first worker adds the first page of a chain
  obtain ⟨crowd₁, accessor₁, reaches₁, shares₁, idle₁, accessors₁, others₁⟩ :=
    sane.crowd_opens shares (rfl : (Crowd.ofService service).workers 0 = .absent)
  obtain ⟨_, sane₁, size₁, relation₁, accessors₁'⟩ := sane.open_within 1 (Nat.le_of_eq one) (by decide)
  generalize (service.perform .openAccessor).2 = service₁ at shares₁ accessors₁ sane₁ size₁ relation₁ accessors₁'
  rw [nobody, List.nil_append] at accessors₁ accessors₁'
  obtain rfl := List.singleton_inj.mp (accessors₁.symm.trans accessors₁')
  have contents₁ : service₁.contents = (pagesOf service.relation).contents := by rw [Service.contents, relation₁]
  have at_zero : service₁.accessors[0]? = some _ := congrArg (·[0]?) accessors₁
  obtain ⟨crowd₂, service₂, _, accessor₂, reaches₂, shares₂, idle₂, accessors₂, sane₂, size₂, -, last₂, others₂⟩ :=
    sane₁.crowd_extends 0 1 shares₁ rfl at_zero idle₁ (by decide) (by rw [contents₁]; rfl)
      (by rw [contents₁, empty]; rfl) (Nat.lt_of_le_of_lt (Nat.succ_le_succ size₁) (by decide))
  have size₂ := Nat.le_trans size₂ (Nat.succ_le_succ size₁)
  rw [accessors₁] at accessors₂
  -- the second worker opens the index
  have absent : crowd₂.workers 1 = .absent := (others₂ 1 (by decide)).trans (others₁ 1 (by decide))
  obtain ⟨crowd₃, accessor₃, reaches₃, shares₃, idle₃, accessors₃, others₃⟩ := sane₂.crowd_opens shares₂ absent
  obtain ⟨_, sane₃, size₃, relation₃, accessors₃'⟩ := sane₂.open_within 2 size₂ (by decide)
  generalize (service₂.perform .openAccessor).2 = service₃ at shares₃ accessors₃ sane₃ size₃ relation₃ accessors₃'
  obtain rfl := List.singleton_inj.mp (List.append_cancel_left (accessors₃.symm.trans accessors₃'))
  rw [accessors₂] at accessors₃
  -- the first worker inserts a summary
  have at_zero : service₃.accessors[0]? = some accessor₂ := congrArg (·[0]?) accessors₃
  have idle₂ : crowd₃.workers 0 = .idle accessor₂ := (others₃ 0 (by decide)).trans idle₂
  have fits : [(7 : UInt8)].length + 4 ≤ maxTupleSize := by decide
  have room : service₃.size + (Use.insert 5454 [7]).demand ⟨1, true⟩ ≤ 2 ^ 20 :=
    Nat.le_trans (Nat.add_le_add_right size₃ _) (by decide)
  obtain ⟨crowd₄, reaches₄, shares₄, others₄⟩ :=
    sane₃.crowd_inserts shares₃ at_zero idle₂ 5454 fits (Nat.lt_of_le_of_lt room (by decide))
  obtain ⟨_, _, -, sane₄, size₄⟩ := sane₃.insert_within (List.getElem?_eq_some_iff.mp at_zero).1 5454 fits _ room
    (by decide)
  generalize (service₃.perform (.use 0 (.insert 5454 [7]))).2 = service₄ at shares₄ sane₄ size₄
  -- the second worker finds the entry
  have all := ((reaches₁.trans reaches₂).trans reaches₃).trans reaches₄
  have small : crowd₄.size < 2 ^ 32 := by
    rw [Crowd.size, shares₄.relation]
    exact Nat.lt_of_le_of_lt size₄ (by decide)
  have idle : crowd₄.workers 1 = .idle _ := (others₄ 1 (by decide)).trans idle₃
  have image_eq : crowd₄.image = pagesOf service₄.relation := congrArg pagesOf shares₄.relation
  have target : 2 ≤ (crowd₄.image.contents.chain 0).lastLogical := by
    rw [image_eq]
    exact sane₄.target_le rfl 5454 rfl
  obtain ⟨scene, kept⟩ := sane.kept.run all small
  have stale : (Accessor.chainOf (.ofMetapage service₂.relation.name (pagesOf service₂.relation).contents)
      0).lastLogical = 1 := last₂
  have sights : Accessor.Sights (.ofMetapage service₂.relation.name (pagesOf service₂.relation).contents) 5454 := by
    rw [Accessor.Sights, if_pos (congrArg Addressing.appendOnly (kept.addressing_of_idle idle))]
    refine ⟨fun empty => absurd (stale.symm.trans (congrArg Chain.lastLogical empty)) (by decide), ?_⟩
    rintro ⟨⟩
  obtain ⟨covering, -, -, covered, -⟩ := (sane₄.binds 5454 [7]).mpr rfl
  rw [← sane₄.shows.pages, ← image_eq] at covered
  obtain ⟨⟨found, accessor', run, present⟩, reach⟩ := (finds crowd₄ all small).1 1 _ 5454 idle
  obtain ⟨block, eq⟩ := Option.ne_none_iff_exists'.mp (kept.found_of_sights idle sights covered run)
  have entry := present block eq
  obtain ⟨accessor'', run'⟩ := reach block entry
  exact ⟨service, crowd₄, _, block, accessor', accessor'', created, all, small, idle, stale, target, eq ▸ run, entry,
    run'⟩

end Warehouse.RangeIndex
