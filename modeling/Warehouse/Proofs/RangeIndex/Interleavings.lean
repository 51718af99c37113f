import Warehouse.Proofs.RangeIndex.Refinement
import Warehouse.Proofs.RangeIndex.Turns

/-! # Operations at the same time

Any number of users operate on one index, and control passes from one to another wherever the
running operation holds no lock. Every turn of an operation changes no binding but the one that
the operation is called to change, and between turns the entries of the range map and the
summaries on the pages point at each other. So no summary is lost, stored twice or left
dangling, and moving summaries out of the way of the range map never brings back what another
operation replaced. -/

namespace Warehouse.RangeIndex

/-! ## Bindings that there is a right to -/

/-- Only bindings have changed that there is a right to. -/
def Image.Heeds (rights : Rights) (image after : Image) : Prop :=
  ∀ heapBlock, (∀ payload, Binds after after.contents heapBlock payload ↔
      Binds image image.contents heapBlock payload) ∨
    ∃ new, rights heapBlock new ∧ ∀ payload, Binds after after.contents heapBlock payload ↔ new = some payload

namespace Image.Heeds

variable {rights rights' : Rights} {image middle after : Image} {heapBlock : BlockNumber} {payload : List UInt8}

theorem refl (rights : Rights) (image : Image) : image.Heeds rights image := fun _ => .inl fun _ => Iff.rfl

theorem of_neutral {scene scene' : Scene} (neutral : Neutral scene scene') : scene.image.Heeds rights scene'.image :=
  fun heapBlock => .inl (neutral heapBlock)

theorem trans (h : image.Heeds rights middle) (h' : middle.Heeds rights after) : image.Heeds rights after := by
  intro heapBlock
  rcases h' heapBlock with same' | granted
  · rcases h heapBlock with same | ⟨new, right, binds⟩
    · exact .inl fun payload => (same' payload).trans (same payload)
    · exact .inr ⟨new, right, fun payload => (same' payload).trans (binds payload)⟩
  · exact .inr granted

theorem mono (h : image.Heeds rights after) (imp : ∀ heapBlock new, rights heapBlock new → rights' heapBlock new) :
    image.Heeds rights' after :=
  fun heapBlock => (h heapBlock).imp_right fun ⟨new, right, binds⟩ => ⟨new, imp heapBlock new right, binds⟩

/-- A payload that a range has was there before, or there was a right to bind the range to it. -/
theorem binds_or (h : image.Heeds rights after) (binds : Binds after after.contents heapBlock payload) :
    Binds image image.contents heapBlock payload ∨ rights heapBlock (some payload) := by
  rcases h heapBlock with same | ⟨new, right, binds'⟩
  · exact .inl ((same payload).mp binds)
  · exact .inr ((binds' payload).mp binds ▸ right)

/-- A range that has a payload keeps one unless there is a right to leave it without. -/
theorem exists_binds (h : image.Heeds rights after) (binds : Binds image image.contents heapBlock payload)
    (kept : ¬ rights heapBlock none) : ∃ payload', Binds after after.contents heapBlock payload' ∧
      (payload' = payload ∨ rights heapBlock (some payload')) := by
  rcases h heapBlock with same | ⟨new, right, binds'⟩
  · exact ⟨payload, (same payload).mpr binds, .inl rfl⟩
  · cases new with
    | none => exact absurd right kept
    | some payload' => exact ⟨payload', (binds' payload').mpr rfl, .inr right⟩

end Image.Heeds

/-- A step of an operation heeds the rights of the operation. -/
theorem Advance.heeds {rights : Rights} {scene after : Scene} (advance : Advance (.shared rights) scene after)
    (sound : Sound scene.image scene.image.contents) : scene.image.Heeds rights after.image := by
  cases advance with
  | grow room =>
      have neutral : Neutral scene ⟨scene.image.push .zero, scene.log⟩ := (sound.shape.quiet_grow room).neutral sound
      exact .of_neutral neutral
  | format first at_block =>
      have neutral : Neutral scene ⟨_, scene.log⟩ := (sound.shape.quiet_format first at_block).neutral sound
      exact .of_neutral neutral
  | flag at_block regular =>
      have neutral : Neutral scene ⟨_, scene.log⟩ := (sound.shape.quiet_flag at_block regular).neutral sound
      exact .of_neutral neutral
  | @commit contents _ record _ sound' change permitted =>
      obtain rfl := sound.holds.unique sound'.holds
      have effect := change.effect sound
      intro heapBlock
      simp only [Image.contents_eq effect.sound.holds, effect.binds]
      cases rebinds : record.rebinds with
      | none => exact .inl fun _ => Iff.rfl
      | some entry =>
          obtain ⟨changed, new⟩ := entry
          simp only [Rebound]
          by_cases here : heapBlock = changed
          · subst here
            simp only [if_true]
            rcases permitted heapBlock new rebinds with right | same
            · exact .inr ⟨new, right, fun _ => Iff.rfl⟩
            · exact .inl same
          · exact .inl fun _ => by rw [if_neg here]

theorem Evolves.heeds {rights : Rights} {scene after : Scene} (evolves : Evolves (.shared rights) scene after)
    (sound : Sound scene.image scene.image.contents) : scene.image.Heeds rights after.image := by
  induction evolves with
  | refl => exact .refl _ _
  | tail evolves step ih =>
      obtain ⟨contents, sound', -⟩ := Evolves.sound evolves sound
      obtain rfl := Image.contents_eq sound'.holds
      exact ih.trans (step.heeds sound')

/-! ## What users call -/

/-- An operation that others may interrupt. -/
inductive Work where
  | openIndex
  | insert (heapBlock : BlockNumber) (payload : List UInt8)
  | ensure (heapBlock : BlockNumber)
  /-- Add the next page to the range map of a plain table. -/
  | extend
  | find (heapBlock : BlockNumber)
  | desummarize (heapBlock : BlockNumber)

/-- Somebody who uses the index. -/
inductive User where
  /-- The user has not opened the index. -/
  | absent
  | idle (accessor : Accessor)
  /-- The user has called an operation, and this is what is left of it. -/
  | busy (work : Work) (accessor : Accessor) (rest : Procedure Unit)

namespace Work

/-- The operation that is called. -/
def procedure (index : String) (rounds : Nat) : Work → Procedure Unit
  | openIndex => RangeIndex.openIndex index
  | insert heapBlock payload => do
      let _ ← RangeIndex.insert rounds heapBlock payload
      return ()
  | ensure heapBlock => do
      let _ ← Coverage.ensure rounds heapBlock
      return ()
  | extend => do
      let _ ← Coverage.extendPlain rounds
      return ()
  | find heapBlock => do
      let _ ← RangeMap.find rounds heapBlock
      return ()
  | desummarize heapBlock => do
      let _ ← RangeIndex.desummarize rounds index heapBlock
      return ()

/-- Who may call an operation, and with which accessor. Opening the index and removing a summary
need none. -/
inductive CalledBy : Work → User → Accessor → Prop
  | openIndex : CalledBy .openIndex .absent .unopened
  | insert {heapBlock : BlockNumber} {payload : List UInt8} {accessor : Accessor} :
      CalledBy (.insert heapBlock payload) (.idle accessor) accessor
  | ensure {heapBlock : BlockNumber} {accessor : Accessor} : CalledBy (.ensure heapBlock) (.idle accessor) accessor
  | extend {accessor : Accessor} (plain : accessor.addressing.appendOnly = false) :
      CalledBy .extend (.idle accessor) accessor
  | find {heapBlock : BlockNumber} {accessor : Accessor} : CalledBy (.find heapBlock) (.idle accessor) accessor
  | desummarize {heapBlock : BlockNumber} : CalledBy (.desummarize heapBlock) .absent .unopened

/-- What the user is after an operation that has ended. -/
def leaves (accessor : Accessor) (outcome : Except Failure Unit) : Work → User
  | openIndex =>
      match outcome with
      | .ok () => .idle accessor
      | .error _ => .absent
  | desummarize _ => .absent
  | _ => .idle accessor

/-- The bindings that an operation is called to make. -/
def rights (addressing : Addressing) : Work → Rights
  | insert heapBlock payload => .only (addressing.start heapBlock) (some payload)
  | desummarize heapBlock => .only (addressing.start heapBlock) none
  | _ => .none

/-- What an operation comes to: a summary that was inserted is there. -/
def Did (addressing : Addressing) (image : Image) : Work → Prop
  | insert heapBlock payload => Binds image image.contents (addressing.start heapBlock) payload
  | _ => True

/-- The contract of an operation among others. -/
def Post (addressing : Addressing) (work : Work) (_ : Unit) (later : Moment) : Prop :=
  later.held = [] ∧ Steady (.shared (work.rights addressing)) later ∧ work.Did addressing later.scene.image

end Work

/-! ## Interleaving -/

/-- An index and its users. -/
structure Interplay where
  relation : Relation
  logFile : ByteArray
  users : Nat → User

/-- What happens to an operation. -/
inductive Phase where
  | called
  | paused
  | ended (outcome : Except Failure Unit)

/-- Something that happens to an operation of a user. -/
structure Event where
  user : Nat
  work : Work
  phase : Phase

/-- The bindings that may change. A call does nothing before its first turn. -/
def Event.rights (addressing : Addressing) (event : Event) : Rights :=
  match event.phase with
  | .called => .none
  | _ => event.work.rights addressing

namespace Interplay

/-- What an operation acts on during its turn. -/
def world (state : Interplay) (accessor : Accessor) : World :=
  ⟨state.relation, state.logFile, accessor, []⟩

/-- The state after a turn of a user. -/
def after (state : Interplay) (user : Nat) (world : World) (becomes : User) : Interplay :=
  ⟨world.relation, world.logFile, Function.update state.users user becomes⟩

@[simp]
theorem users_after_same (state : Interplay) (user : Nat) (world : World) (becomes : User) :
    (state.after user world becomes).users user = becomes := Function.update_self ..

theorem users_after_other {user other : Nat} (ne : other ≠ user) (state : Interplay) (world : World)
    (becomes : User) : (state.after user world becomes).users other = state.users other :=
  Function.update_of_ne ne ..

/-- An index that nobody uses yet. -/
def ofService (service : Service) : Interplay := ⟨service.relation, service.logFile, fun _ => .absent⟩

/-- The number of pages. -/
def size (state : Interplay) : Nat := state.relation.buffers.size

/-- The pages of the index. -/
def image (state : Interplay) : Image := pagesOf state.relation

/-- A user calls an operation, or an operation takes a turn. The operation may go on for any
number of rounds. -/
inductive Step (state : Interplay) : Event → Interplay → Prop
  | call {user : Nat} {work : Work} {accessor : Accessor} (rounds : Nat)
      (called : work.CalledBy (state.users user) accessor) :
      Step state ⟨user, work, .called⟩ (state.after user (state.world accessor)
        (.busy work accessor (work.procedure state.relation.name rounds)))
  | pause {user : Nat} {work : Work} {accessor : Accessor} {procedure rest : Procedure Unit} {world : World}
      (at_user : state.users user = .busy work accessor procedure)
      (turn : Turn procedure (state.world accessor) (.paused rest) world) :
      Step state ⟨user, work, .paused⟩ (state.after user world (.busy work world.accessor rest))
  | finish {user : Nat} {work : Work} {accessor : Accessor} {procedure : Procedure Unit} {world : World}
      {outcome : Except Failure Unit} (at_user : state.users user = .busy work accessor procedure)
      (turn : Turn procedure (state.world accessor) (.ended outcome) world) :
      Step state ⟨user, work, .ended outcome⟩ (state.after user world (work.leaves world.accessor outcome))

/-- What may happen from a state on. -/
inductive Run : Interplay → List Event → Interplay → Prop
  | nil {state : Interplay} : Run state [] state
  | cons {state middle last : Interplay} {event : Event} {events : List Event} (step : Step state event middle)
      (run : Run middle events last) : Run state (event :: events) last

variable {state middle last : Interplay} {event : Event} {events before rest : List Event}

theorem Step.size_le (step : Step state event last) : state.size ≤ last.size := by
  cases step with
  | call => exact Nat.le_refl _
  | pause at_user turn => exact turn.size_le
  | finish at_user turn => exact turn.size_le

theorem Run.size_le (run : Run state events last) : state.size ≤ last.size := by
  induction run with
  | nil => exact Nat.le_refl _
  | cons step _ ih => exact Nat.le_trans step.size_le ih

theorem Run.split (run : Run state (before ++ rest) last) :
    ∃ middle, Run state before middle ∧ Run middle rest last := by
  induction before generalizing state with
  | nil => exact ⟨state, .nil, run⟩
  | cons event before ih =>
      cases run with
      | cons step run =>
          obtain ⟨middle, front, back⟩ := ih run
          exact ⟨middle, .cons step front, back⟩

theorem Run.append (run : Run state before middle) (run' : Run middle rest last) : Run state (before ++ rest) last := by
  induction run with
  | nil => exact run'
  | cons step _ ih => exact .cons step (ih run')

theorem after_after (state : Interplay) (user : Nat) (world world' : World) (becomes becomes' : User) :
    (state.after user world becomes).after user world' becomes' = state.after user world' becomes' := by
  simp only [after, Function.update_idem]

theorem run_of_turns {user : Nat} {work : Work} {accessor : Accessor} {procedure : Procedure Unit} {world : World}
    {outcome : Except Failure Unit} (turns : Turns procedure (state.world accessor) outcome world)
    (at_user : state.users user = .busy work accessor procedure) :
    ∃ count, Run state (List.replicate count ⟨user, work, .paused⟩ ++ [⟨user, work, .ended outcome⟩])
      (state.after user world (work.leaves world.accessor outcome)) := by
  generalize begins : state.world accessor = first at turns
  induction turns generalizing state accessor with
  | last turn =>
      subst begins
      exact ⟨0, .cons (.finish at_user turn) .nil⟩
  | @more procedure rest world middle after outcome turn free turns ih =>
      subst begins
      have again : (state.after user middle (.busy work middle.accessor rest)).world middle.accessor = middle := by
        simp only [Interplay.world, Interplay.after, ← free]
      obtain ⟨count, run⟩ := ih (users_after_same _ _ _ _) again
      rw [after_after] at run
      exact ⟨count + 1, .cons (.pause at_user turn) run⟩

/-- An operation that nobody interrupts does what it does in one run. -/
theorem run_uninterrupted {user : Nat} {work : Work} {accessor : Accessor} {procedure : Procedure Unit}
    {world : World} {outcome : Except Failure Unit} (at_user : state.users user = .busy work accessor procedure)
    (eq : procedure.run (state.world accessor) = (outcome, world)) :
    ∃ count, Run state (List.replicate count ⟨user, work, .paused⟩ ++ [⟨user, work, .ended outcome⟩])
      (state.after user world (work.leaves world.accessor outcome)) := by
  have turns := turns_run procedure (state.world accessor)
  rw [eq] at turns
  exact run_of_turns turns at_user

end Interplay

/-! ## The contract of every operation -/

section Contracts

variable {addressing : Addressing} {scene : Scene} {user : User} {work : Work} {accessor : Accessor}
  {index : String} {rounds : Nat}

/-- What is known about a user: an accessor that is not in use knows nothing wrong, and an
operation keeps its contract whatever others do before its next turn. -/
def User.Ready (addressing : Addressing) (scene : Scene) : User → Prop
  | .absent => True
  | .idle accessor => Knows scene.image scene.image.contents accessor
  | .busy work accessor rest => ∀ later, Evolves (.shared .all) scene later →
      Ensures (.shared (work.rights addressing)) (work.Post addressing) rest ⟨later, later, accessor, []⟩

theorem User.Ready.later {later : Scene} (ready : user.Ready addressing scene)
    (sound : Sound scene.image scene.image.contents) (evolves : Evolves (.shared .all) scene later) :
    user.Ready addressing later := by
  cases user with
  | absent => exact trivial
  | idle accessor =>
      obtain ⟨contents, sound', grows⟩ := Evolves.sound evolves sound
      obtain rfl := Image.contents_eq sound'.holds
      exact Knows.grow ready grows
  | busy work accessor rest => exact fun last evolves' => ready last (evolves.trans evolves')

/-- Every operation keeps its contract when it is called. -/
theorem Work.ensures (called : work.CalledBy user accessor) (ready : user.Ready addressing scene)
    (sound : Sound scene.image scene.image.contents) (gapless : Gapless scene.image scene.image.contents)
    (addressing_eq : scene.image.contents.addressing = addressing) :
    Ensures (.shared (work.rights addressing)) (work.Post addressing) (work.procedure index rounds)
      ⟨scene, scene, accessor, []⟩ := by
  have steady : ∀ {rights accessor}, Knows scene.image scene.image.contents accessor →
      Steady (.shared rights) ⟨scene, scene, accessor, []⟩ :=
    fun knows => ⟨sound, knows, fun _ => gapless, .refl⟩
  have grounded : ∀ {rights accessor}, Grounded (.shared rights) ⟨scene, scene, accessor, []⟩ :=
    ⟨sound, fun _ => gapless, .refl⟩
  have start : ∀ accessor heapBlock, (Moment.mk scene scene accessor []).contents.addressing.start heapBlock =
      addressing.start heapBlock := fun _ heapBlock => by
    rw [← addressing_eq]
    rfl
  have grants : ∀ {heapBlock new}, Mode.Grants (.shared (.only heapBlock new)) heapBlock new := by
    rintro heapBlock new rights gaps eq
    obtain ⟨rfl, -⟩ := Mode.shared.inj eq
    exact ⟨rfl, rfl⟩
  cases called with
  | openIndex =>
      refine (openIndex_spec grounded rfl nofun).mono ?_
      rintro ⟨⟩ later ⟨free, steady', -⟩
      exact ⟨free, steady', trivial⟩
  | @insert heapBlock payload =>
      have spec : Ensures (.shared (.only (addressing.start heapBlock) (some payload))) _
          (RangeIndex.insert rounds heapBlock payload) ⟨scene, scene, accessor, []⟩ :=
        insert_spec (steady ready) rfl nofun nofun (fun (_ : True) => by rw [start]; exact grants) nofun
      refine spec.andThen ?_
      rintro place later ⟨free, steady', -, binds, -⟩
      rw [start] at binds
      exact ⟨free, steady' trivial, binds⟩
  | ensure =>
      refine (ensure_spec (steady ready) rfl nofun nofun).andThen ?_
      rintro block later ⟨free, steady', -⟩
      exact ⟨free, steady', trivial⟩
  | extend plain =>
      refine (@extendPlain_spec _ _ _ 0 (steady ready) rfl plain nofun nofun nofun).andThen ?_
      rintro growth later ⟨free, steady', -⟩
      exact ⟨free, steady', trivial⟩
  | find =>
      refine (find_spec (steady ready) rfl nofun).andThen ?_
      rintro found later ⟨looks, -, -⟩
      exact ⟨looks.waits.held_eq, looks.steady, trivial⟩
  | @desummarize heapBlock =>
      have spec : Ensures (.shared (.only (addressing.start heapBlock) none)) _
          (RangeIndex.desummarize rounds index heapBlock) ⟨scene, scene, .unopened, []⟩ :=
        desummarize_spec grounded rfl nofun (by rw [start]; exact grants) nofun
      refine spec.andThen ?_
      rintro done later ⟨free, steady', -⟩
      exact ⟨free, steady', trivial⟩

end Contracts

/-! ## Between turns -/

/-- The index is sound, no chain has gaps, and every user is as the contracts say. -/
structure Orderly (addressing : Addressing) (state : Interplay) (scene : Scene) : Prop where
  shows : Shows state.relation state.logFile scene
  sound : Sound scene.image scene.image.contents
  gapless : Gapless scene.image scene.image.contents
  addressing_eq : scene.image.contents.addressing = addressing
  ready : ∀ user, (state.users user).Ready addressing scene

/-- The bindings that the operations of events may change. -/
def granted (addressing : Addressing) (events : List Event) : Rights :=
  fun heapBlock new => ∃ event ∈ events, event.rights addressing heapBlock new

section Turns

variable {addressing : Addressing} {state last : Interplay} {scene : Scene} {event : Event} {events : List Event}
  {world : World} {later : Moment} {becomes : User}

/-- After a turn the other users are as before, as far as the contracts say. -/
theorem Orderly.next (orderly : Orderly addressing state scene) (models : Models world later)
    (evolves : Evolves (.shared .all) scene later.scene) (becomes_ready : becomes.Ready addressing later.scene)
    (user : Nat) : Orderly addressing (state.after user world becomes) later.scene := by
  obtain ⟨contents, sound, grows⟩ := Evolves.sound evolves orderly.sound
  obtain rfl := Image.contents_eq sound.holds
  refine ⟨models.shows, sound, evolves.gapless orderly.sound orderly.gapless rfl,
    grows.addressing_eq.trans orderly.addressing_eq, fun other => ?_⟩
  by_cases here : other = user
  · subst here
    rwa [Interplay.users_after_same]
  · rw [Interplay.users_after_other here]
    exact (orderly.ready other).later orderly.sound evolves

theorem Work.ready_leaves {accessor : Accessor} (work : Work) (outcome : Except Failure Unit)
    (knows : Knows scene.image scene.image.contents accessor) :
    (work.leaves accessor outcome).Ready addressing scene := by
  cases work with
  | openIndex =>
      cases outcome with
      | ok => exact knows
      | error => exact trivial
  | desummarize => exact trivial
  | _ => exact knows

/-- Whatever happens next is something that operations do, the index is sound afterwards, only
bindings have changed that the operation is called to change, and an operation that ended well
has done what it is for. -/
theorem Orderly.step (orderly : Orderly addressing state scene) (step : state.Step event last)
    (room : last.size < 2 ^ 32) : ∃ scene', Orderly addressing last scene' ∧ Evolves (.shared .all) scene scene' ∧
      scene.image.Heeds (event.rights addressing) scene'.image ∧
      (event.phase = .ended (.ok ()) → event.work.Did addressing scene'.image) := by
  cases step with
  | @call user work accessor rounds called =>
      have models : Models (state.world accessor) ⟨scene, scene, accessor, []⟩ := ⟨orderly.shows, rfl, rfl⟩
      have ready : (User.busy work accessor (work.procedure state.relation.name rounds)).Ready addressing scene := by
        intro after evolves
        obtain ⟨contents, sound, grows⟩ := Evolves.sound evolves orderly.sound
        obtain rfl := Image.contents_eq sound.holds
        exact Work.ensures called ((orderly.ready user).later orderly.sound evolves) sound
          (evolves.gapless orderly.sound orderly.gapless rfl) (grows.addressing_eq.trans orderly.addressing_eq)
      exact ⟨scene, orderly.next models .refl ready user, .refl, .refl _ _, nofun⟩
  | @pause user work accessor procedure rest world at_user turn =>
      have ready := orderly.ready user
      rw [at_user] at ready
      obtain ⟨later, models, evolves, keeps⟩ := turn.keeps (ready scene .refl) ⟨orderly.shows, rfl, rfl⟩
        (fun _ => rfl) nofun (fun _ _ post => post.2.1) room
      have ready' : (User.busy work world.accessor rest).Ready addressing later.scene := by
        rw [models.accessor]
        exact keeps
      exact ⟨later.scene, orderly.next models evolves.together ready' user, evolves.together,
        evolves.heeds orderly.sound, nofun⟩
  | @finish user work accessor procedure world outcome at_user turn =>
      have ready := orderly.ready user
      rw [at_user] at ready
      obtain ⟨later, models, evolves, keeps⟩ := turn.keeps (ready scene .refl) ⟨orderly.shows, rfl, rfl⟩
        (fun _ => rfl) nofun (fun _ _ post => post.2.1) room
      have knows : Knows later.scene.image later.scene.image.contents world.accessor := by
        rw [models.accessor]
        cases outcome with
        | ok => exact keeps.2.1.knows
        | error => exact keeps.2.knows
      refine ⟨later.scene, orderly.next models evolves.together (work.ready_leaves outcome knows) user,
        evolves.together, evolves.heeds orderly.sound, fun ended => ?_⟩
      obtain rfl := Phase.ended.inj ended
      exact keeps.2.2

/-- Whatever happens is something that operations do, the index is sound, and only bindings have
changed that operations are called to change. -/
theorem Orderly.run (orderly : Orderly addressing state scene) (run : Interplay.Run state events last)
    (room : last.size < 2 ^ 32) :
    ∃ scene', Orderly addressing last scene' ∧ Evolves (.shared .all) scene scene' ∧
      scene.image.Heeds (granted addressing events) scene'.image := by
  induction run generalizing scene with
  | nil => exact ⟨scene, orderly, .refl, .refl _ _⟩
  | cons step run ih =>
      obtain ⟨middle, orderly', evolves, heeds, -⟩ := orderly.step step (Nat.lt_of_le_of_lt run.size_le room)
      obtain ⟨after, orderly'', evolves', heeds'⟩ := ih orderly' room
      refine ⟨after, orderly'', evolves.trans evolves', (heeds.mono fun heapBlock new right => ?_).trans
        (heeds'.mono fun heapBlock new right => ?_)⟩
      · exact ⟨_, List.mem_cons_self, right⟩
      · obtain ⟨event, mem, right⟩ := right
        exact ⟨event, List.mem_cons_of_mem _ mem, right⟩

end Turns

/-! ## Entries and line pointers -/

namespace Image

/-- The entry of the range that starts at a table block is at an index of a range map page. -/
structure EntryOf (image : Image) (heapBlock mapBlock : BlockNumber) (index : Nat) : Prop where
  start : image.contents.addressing.IsStart heapBlock
  covered : Covers image image.contents heapBlock mapBlock
  slot_eq : image.contents.addressing.slot heapBlock = index

/-- There is a regular page with a used line pointer at the place. -/
def Uses (image : Image) (place : ItemPointer) : Prop :=
  ∃ page pointer, image.page? place.block = some page ∧ isRegular page = true ∧
    page.pointer place.offset.toNat = .ok pointer ∧ pointer.isUsed = true

/-- The used line pointer at the place has a tuple that is read as the summary. -/
def Stores (image : Image) (place : ItemPointer) (summary : Summary) : Prop :=
  image.Uses place ∧ ∃ page, image.page? place.block = some page ∧
    RangeMap.summaryAt page place.offset = .ok (some summary)

/-- The entries of the range map and the summaries on regular pages point at each other. -/
structure Matched (image : Image) : Prop where
  /-- A valid entry is that of one range, and it points at a summary of the range. -/
  pointed : ∀ mapBlock index place, entryIn image mapBlock index = some place → ∃ heapBlock payload,
    image.EntryOf heapBlock mapBlock index ∧ (∀ other, image.EntryOf other mapBlock index → other = heapBlock) ∧
      image.Stores place ⟨heapBlock, payload⟩
  /-- A used line pointer has a summary, and one entry points at it, which is that of the range. -/
  owned : ∀ place, image.Uses place → ∃ summary mapBlock index, image.Stores place summary ∧
    image.EntryOf summary.heapBlock mapBlock index ∧ ∀ block slot,
      entryIn image block slot = some place ↔ block = mapBlock ∧ slot = index

end Image

namespace Sound

variable {image : Image} {place : ItemPointer} {summary : Summary} {heapBlock : BlockNumber} {payload : List UInt8}

theorem uses_iff (sound : Sound image image.contents) :
    image.Uses place ↔ ∃ bytes, tupleAt image place = some bytes := by
  constructor
  · rintro ⟨page, pointer, at_block, kind, eq, used⟩
    have regular := sound.shape.regular_of at_block kind
    obtain rfl := Except.ok.inj ((regular.packed.pointer_eq _).symm.trans eq)
    rw [tupleAt_of_regular at_block regular, ← Option.isSome_iff_exists, regular.packed.isSome_itemAt, used]
  · rintro ⟨bytes, tuple⟩
    obtain ⟨page, at_block, kind, item⟩ := tupleAt_eq_some tuple
    have regular := sound.shape.regular_of at_block kind
    refine ⟨page, _, at_block, kind, regular.packed.pointer_eq _, ?_⟩
    rw [← regular.packed.isSome_itemAt, item, Option.isSome_some]

theorem stores_iff (sound : Sound image image.contents) :
    image.Stores place summary ↔ ∃ bytes, tupleAt image place = some bytes ∧ Summary.decode bytes = some summary := by
  have read : ∀ {page bytes}, image.page? place.block = some page → tupleAt image place = some bytes →
      RangeMap.summaryAt page place.offset = .ok (Summary.decode bytes) := by
    intro page bytes at_block tuple
    obtain ⟨page', at_block', kind, item⟩ := tupleAt_eq_some tuple
    obtain rfl := Option.some.inj (at_block.symm.trans at_block')
    rw [(sound.shape.regular_of at_block kind).summaryAt_eq, summaryOn, item, Option.bind_some]
  constructor
  · rintro ⟨uses, page, at_block, eq⟩
    obtain ⟨bytes, tuple⟩ := sound.uses_iff.mp uses
    exact ⟨bytes, tuple, Except.ok.inj ((read at_block tuple).symm.trans eq)⟩
  · rintro ⟨bytes, tuple, decoded⟩
    obtain ⟨page, at_block, -⟩ := tupleAt_eq_some tuple
    exact ⟨sound.uses_iff.mpr ⟨bytes, tuple⟩, page, at_block, by rw [read at_block tuple, decoded]⟩

theorem matched (sound : Sound image image.contents) : image.Matched where
  pointed mapBlock index place entry := by
    obtain ⟨bytes, ⟨heapBlock, payload⟩, tuple, decoded, start, covered, slot⟩ := sound.linked.pointed _ _ _ entry
    refine ⟨heapBlock, payload, ⟨start, covered, slot⟩, fun other entryOf => ?_,
      sound.stores_iff.mpr ⟨bytes, tuple, decoded⟩⟩
    exact sound.shape.functional.injective entryOf.covered covered entryOf.start start (entryOf.slot_eq.trans slot.symm)
  owned place uses := by
    obtain ⟨bytes, tuple⟩ := sound.uses_iff.mp uses
    obtain ⟨summary, mapBlock, decoded, start, covered, entry⟩ := sound.linked.owned _ _ tuple
    refine ⟨summary, mapBlock, _, sound.stores_iff.mpr ⟨bytes, tuple, decoded⟩, ⟨start, covered, rfl⟩,
      fun block slot => ⟨fun entry' => ?_, ?_⟩⟩
    · exact sound.linked.entry_unique sound.shape.functional entry' entry
    · rintro ⟨rfl, rfl⟩
      exact entry

/-- The payload of a range lies at one place, and there is no other summary of the range. -/
theorem exists_only_place (sound : Sound image image.contents)
    (binds : Binds image image.contents heapBlock payload) : ∃ place, image.Stores place ⟨heapBlock, payload⟩ ∧
      ∀ other payload', image.Stores other ⟨heapBlock, payload'⟩ → other = place := by
  obtain ⟨block, place, bytes, covered, entry, tuple, decoded⟩ := binds
  refine ⟨place, sound.stores_iff.mpr ⟨bytes, tuple, decoded⟩, fun other payload' stores => ?_⟩
  obtain ⟨bytes', tuple', decoded'⟩ := sound.stores_iff.mp stores
  have entry' := sound.linked.entry_of_tuple sound.shape.functional tuple' decoded' covered
  exact Option.some.inj (entry'.symm.trans entry)

end Sound

theorem Sane.orderly {service : Service} {scene : Scene} {addressing : Addressing} {ledger : Ledger}
    (sane : Sane service scene addressing ledger) : Orderly addressing (.ofService service) scene :=
  ⟨sane.shows, sane.sound, sane.gapless, sane.addressing_eq, fun _ => trivial⟩

/-- No summary is lost, stored twice or left dangling when operations interrupt each other. Any
users call any operations on an index, and every operation may take its turns whenever it is
between locks, and may be cancelled where it asks for it. Then, at any point between turns, the
entries of the range map and the summaries on regular pages point at each other, and the payload
of a range is one that somebody asked for. Whatever happens next changes at most the binding
that the operation is called to change, so that an evacuation changes none. From the end of an
insert on, as long as no operation removes the summary of its range, the range has one summary,
and it is that of the insert or of a later one. -/
theorem interleaved_operations_keep_summaries {log : Option Log.Writer} {file : ByteArray} {pagesPerRange : UInt32}
    (name : String) (appendOnly : Bool)
    (bounds : 1 ≤ pagesPerRange.toNat ∧ pagesPerRange.toNat ≤ maxPagesPerRange)
    (at_end : ∀ writer, log = some writer → writer.AtEnd file) :
    ∃ service, Service.create (.empty name log) file pagesPerRange appendOnly = .ok service ∧
      ∀ events state, Interplay.Run (.ofService service) events state → state.size < 2 ^ 32 →
        state.image.Matched ∧
        (∀ heapBlock payload, Binds state.image state.image.contents heapBlock payload →
          granted ⟨pagesPerRange, appendOnly⟩ events heapBlock (some payload)) ∧
        (∀ event next, state.Step event next → next.size < 2 ^ 32 →
          state.image.Heeds (event.rights ⟨pagesPerRange, appendOnly⟩) next.image) ∧
        ∀ before user block payload after,
          events = before ++ ⟨user, .insert block payload, .ended (.ok ())⟩ :: after →
          ¬ granted ⟨pagesPerRange, appendOnly⟩ after (Addressing.start ⟨pagesPerRange, appendOnly⟩ block) none →
          ∃ place payload',
            state.image.Stores place ⟨Addressing.start ⟨pagesPerRange, appendOnly⟩ block, payload'⟩ ∧
            (∀ other payload'', state.image.Stores other
              ⟨Addressing.start ⟨pagesPerRange, appendOnly⟩ block, payload''⟩ → other = place) ∧
            (payload' = payload ∨ granted ⟨pagesPerRange, appendOnly⟩ after
              (Addressing.start ⟨pagesPerRange, appendOnly⟩ block) (some payload')) := by
  obtain ⟨service, created, sane⟩ := exists_created name appendOnly bounds at_end
  refine ⟨service, created, fun events state run room => ?_⟩
  obtain ⟨scene, orderly, -, heeds⟩ := sane.orderly.run run room
  have image_eq : state.image = scene.image := orderly.shows.pages
  rw [image_eq]
  refine ⟨orderly.sound.matched, fun heapBlock payload binds => ?_, fun event next step room' => ?_,
    fun before user block payload after eq kept => ?_⟩
  · rcases heeds.binds_or binds with old | right
    · exact absurd old (not_binds_created heapBlock payload)
    · exact right
  · obtain ⟨scene', orderly', -, heeds', -⟩ := orderly.step step room'
    have image_eq' : next.image = scene'.image := orderly'.shows.pages
    rw [image_eq']
    exact heeds'
  · -- the range is bound where the insert ends, and stays so
    subst eq
    obtain ⟨middle, front, back⟩ := run.split
    cases back with
    | cons step back =>
        have room' := Nat.lt_of_le_of_lt back.size_le room
        obtain ⟨scene₁, orderly₁, -⟩ := sane.orderly.run front (Nat.lt_of_le_of_lt step.size_le room')
        obtain ⟨scene₂, orderly₂, -, -, did⟩ := orderly₁.step step room'
        obtain ⟨scene₃, orderly₃, -, heeds₃⟩ := orderly₂.run back room
        have same : scene₃.image = scene.image := orderly₃.shows.pages.symm.trans image_eq
        rw [same] at heeds₃
        obtain ⟨payload', binds, whose⟩ := heeds₃.exists_binds (did rfl) kept
        obtain ⟨place, stores, only⟩ := orderly.sound.exists_only_place binds
        exact ⟨place, payload', stores, only, whose⟩

/-! ## Turns without interruption -/

/-- The turns of an operation that is not interrupted again and succeeds. -/
def Event.turns (user : Nat) (work : Work) (count : Nat) : List Event :=
  List.replicate count ⟨user, work, .paused⟩ ++ [⟨user, work, .ended (.ok ())⟩]

/-- The pages and the log are those of a service. -/
structure Interplay.Shares (state : Interplay) (service : Service) : Prop where
  relation : state.relation = service.relation
  logFile : state.logFile = service.logFile

section Uninterrupted

variable {service : Service} {scene : Scene} {addressing : Addressing} {ledger : Ledger} {state : Interplay}
  {user number : Nat} {accessor : Accessor} {heapBlock : BlockNumber} {payload : List UInt8}

theorem Interplay.shares_ofService (service : Service) : (Interplay.ofService service).Shares service := ⟨rfl, rfl⟩

theorem Interplay.Shares.world_eq (shares : state.Shares service) (accessor : Accessor) :
    state.world accessor = service.world accessor := by
  rw [Interplay.world, Service.world, shares.relation, shares.logFile]

/-- A user opens the index, which is a call. -/
theorem Sane.run_open (sane : Sane service scene addressing ledger) (shares : state.Shares service)
    (absent : state.users user = .absent) :
    ∃ count last accessor, Interplay.Run state (⟨user, .openIndex, .called⟩ :: Event.turns user .openIndex count) last ∧
      last.Shares (service.perform .openAccessor).2 ∧ last.users user = .idle accessor ∧
      (service.perform .openAccessor).2.accessors = service.accessors ++ [accessor] ∧
      ∀ other, other ≠ user → last.users other = state.users other := by
  have called : Work.openIndex.CalledBy (state.users user) .unopened := absent ▸ .openIndex
  have step := Interplay.Step.call 0 called
  have opened := sane.run_openIndex state.relation.name
  have at_user : (state.after user (state.world .unopened) (.busy .openIndex .unopened
      (openIndex state.relation.name))).users user = _ := Interplay.users_after_same _ _ _ _
  rw [← shares.world_eq] at opened
  obtain ⟨count, run⟩ := Interplay.run_uninterrupted at_user opened
  rw [Interplay.after_after] at run
  have performed : (service.perform .openAccessor).2 = ⟨service.relation, service.logFile,
      service.accessors ++ [.ofMetapage state.relation.name scene.image.contents]⟩ := by
    rw [sane.perform_openAccessor, shares.relation]
  rw [performed]
  refine ⟨count, _, _, .cons step run, ⟨rfl, rfl⟩, Interplay.users_after_same _ _ _ _, rfl, fun other ne => ?_⟩
  exact Interplay.users_after_other ne _ _ _

/-- A user inserts a summary, which is a call, also when what is left of the operation does what the
operation would do. -/
theorem Sane.run_insert (sane : Sane service scene addressing ledger) {rest : Procedure Unit}
    (shares : state.Shares service) (at_number : service.accessors[number]? = some accessor)
    (fits : payload.length + 4 ≤ maxTupleSize)
    (room : service.size + (Use.insert heapBlock payload).demand addressing < 2 ^ 32)
    (at_user : state.users user = .busy (.insert heapBlock payload) accessor rest)
    (same : rest.run (service.world accessor) =
      (do let _ ← insert Session.rounds heapBlock payload; return ()).run (service.world accessor)) :
    ∃ count last, Interplay.Run state (Event.turns user (.insert heapBlock payload) count) last ∧
      last.Shares (service.perform (.use number (.insert heapBlock payload))).2 ∧
      ∀ other, other ≠ user → last.users other = state.users other := by
  obtain ⟨place, ok⟩ := sane.insert_returns at_number fits room
  have ran : rest.run (state.world accessor) =
      (.ok (), ((Use.insert heapBlock payload).procedure.run (service.world accessor)).2) := by
    rw [shares.world_eq, same, Use.procedure, Procedure.run_saying, Procedure.run_saying, ok]
    rfl
  obtain ⟨count, run⟩ := Interplay.run_uninterrupted at_user ran
  rw [Service.perform, at_number]
  exact ⟨count, _, run, ⟨rfl, rfl⟩, fun other ne => Interplay.users_after_other ne _ _ _⟩

/-- A user inserts a summary without being interrupted. -/
theorem Sane.run_called_insert (sane : Sane service scene addressing ledger) (shares : state.Shares service)
    (at_number : service.accessors[number]? = some accessor) (fits : payload.length + 4 ≤ maxTupleSize)
    (room : service.size + (Use.insert heapBlock payload).demand addressing < 2 ^ 32)
    (idle : state.users user = .idle accessor) :
    ∃ count last, Interplay.Run state
        (⟨user, .insert heapBlock payload, .called⟩ :: Event.turns user (.insert heapBlock payload) count) last ∧
      last.Shares (service.perform (.use number (.insert heapBlock payload))).2 ∧
      ∀ other, other ≠ user → last.users other = state.users other := by
  have called : (Work.insert heapBlock payload).CalledBy (state.users user) accessor := idle ▸ .insert
  have begins := Interplay.Step.call Session.rounds called
  have shares' : (state.after user (state.world accessor) (.busy (.insert heapBlock payload) accessor
    ((Work.insert heapBlock payload).procedure state.relation.name Session.rounds))).Shares service :=
    ⟨shares.relation, shares.logFile⟩
  obtain ⟨count, last, run, shares'', others⟩ :=
    sane.run_insert shares' at_number fits room (Interplay.users_after_same _ _ _ _) rfl
  refine ⟨count, last, .cons begins run, shares'', fun other ne => ?_⟩
  exact (others other ne).trans (Interplay.users_after_other ne _ _ _)

/-- An insert reads the accessor and then goes on with another request. -/
theorem Work.insert_asks (valid : accessor.addressing.Valid) (heapBlock : BlockNumber)
    (fits : payload.length + 4 ≤ maxTupleSize) (index : String) :
    ∃ next, (Work.insert heapBlock payload).procedure index Session.rounds = .ask .accessor next ∧
      ∃ next', next accessor = .ask .accessor next' := by
  have short : ¬ maxTupleSize < (Summary.encode ⟨accessor.addressing.start heapBlock, payload⟩).length := by
    rw [Summary.length_encode]
    exact Nat.not_lt.mpr fits
  refine ⟨_, rfl, ?_⟩
  change ∃ next', Procedure.bind (Procedure.bind (liftM (accessor.addressing.rangeStart heapBlock)) _) _ = _
  rw [Addressing.rangeStart_eq valid]
  change ∃ next', Procedure.bind (if maxTupleSize < _ then _ else _) _ = _
  rw [if_neg short]
  exact ⟨_, rfl⟩

/-- A user calls an insert, which is interrupted after its first turn. -/
theorem Interplay.interrupt_insert (idle : state.users user = .idle accessor) (valid : accessor.addressing.Valid)
    (heapBlock : BlockNumber) (fits : payload.length + 4 ≤ maxTupleSize) :
    ∃ rest, Interplay.Run state [⟨user, .insert heapBlock payload, .called⟩, ⟨user, .insert heapBlock payload, .paused⟩]
        (state.after user (state.world accessor) (.busy (.insert heapBlock payload) accessor rest)) ∧
      ∀ world : World, world.accessor = accessor →
        rest.run world = (do let _ ← insert Session.rounds heapBlock payload; return ()).run world := by
  have called : (Work.insert heapBlock payload).CalledBy (state.users user) accessor := idle ▸ .insert
  have begins := Step.call Session.rounds called
  obtain ⟨next, asks, next', asks'⟩ := Work.insert_asks valid heapBlock fits state.relation.name
  rw [asks] at begins
  have turn : Turn (.ask .accessor next) (state.world accessor) (next accessor).stop (state.world accessor) :=
    .pause rfl rfl
  have stops : (next accessor).stop = .paused (next accessor) := by
    rw [asks']
    rfl
  rw [stops] at turn
  have pauses := @Step.pause (state.after user (state.world accessor) (.busy (.insert heapBlock payload) accessor
    (.ask .accessor next))) _ _ _ _ _ _ (users_after_same _ _ _ _) turn
  rw [after_after] at pauses
  refine ⟨next accessor, .cons begins (.cons pauses .nil), fun world known => ?_⟩
  subst known
  exact (congrArg (Procedure.run · world) asks).symm

end Uninterrupted

/-- A user opens a new index and calls an insert, which gives control away after its first turn. Then
another user opens the index and inserts a summary for the same range, and only after that the
first insert goes on. The range has its summary, and no other one. -/
theorem interleaved_operations_keep_summaries_overtaken : ∃ service opens opens' inserts inserts' state place,
    Service.create (.empty "index" none) .empty 1 false = .ok service ∧
      Interplay.Run (.ofService service) (⟨0, .openIndex, .called⟩ :: Event.turns 0 .openIndex opens ++
        (⟨0, .insert 3 [7], .called⟩ :: ⟨0, .insert 3 [7], .paused⟩ ::
        (⟨1, .openIndex, .called⟩ :: Event.turns 1 .openIndex opens' ++
        (⟨1, .insert 3 [8], .called⟩ :: Event.turns 1 (.insert 3 [8]) inserts ++
        Event.turns 0 (.insert 3 [7]) inserts')))) state ∧
      state.size < 2 ^ 32 ∧ state.image.Matched ∧ state.image.Stores place ⟨3, [7]⟩ ∧
      ∀ other payload, state.image.Stores other ⟨3, payload⟩ → other = place := by
  have bounds : 1 ≤ (1 : UInt32).toNat ∧ (1 : UInt32).toNat ≤ maxPagesPerRange := by decide
  have at_end := Log.Writer.atEnd_of_none_eq .empty
  obtain ⟨service, created, keeps⟩ := interleaved_operations_keep_summaries "index" false bounds at_end
  have sane := sane_of_create bounds at_end created
  have one := size_of_create bounds at_end created
  have no_accessors : service.accessors = [] := List.length_eq_zero_iff.mp sane.count
  -- the first user opens the index and is interrupted amid the insert
  obtain ⟨opens, state₁, accessor, run₁, shares₁, idle₁, accessors₁, others₁⟩ :=
    sane.run_open (Interplay.shares_ofService service) (rfl : (Interplay.ofService service).users 0 = .absent)
  obtain ⟨scene₁, sane₁, size₁⟩ := sane.perform_within .openAccessor 1 (Nat.le_of_eq one) (by decide)
  generalize (service.perform .openAccessor).2 = service₁ at shares₁ accessors₁ sane₁ size₁
  rw [no_accessors, List.nil_append] at accessors₁
  have valid : accessor.addressing.Valid := by
    rw [(sane₁.knows accessor (accessors₁ ▸ List.mem_singleton_self _)).addressing_eq, sane₁.addressing_eq]
    exact sane₁.valid
  have fits : ∀ byte : UInt8, [byte].length + 4 ≤ maxTupleSize := fun _ => (by decide : 1 + 4 ≤ maxTupleSize)
  obtain ⟨rest, run₂, rest_run⟩ := Interplay.interrupt_insert idle₁ valid 3 (fits 7)
  -- the second user opens the index and inserts a summary of its own
  have absent : (state₁.after 0 (state₁.world accessor) (.busy (.insert 3 [7]) accessor rest)).users 1 = .absent :=
    (Interplay.users_after_other (by decide) _ _ _).trans (others₁ 1 (by decide))
  have shares₂ : Interplay.Shares (state₁.after 0 (state₁.world accessor) (.busy (.insert 3 [7]) accessor rest))
      service₁ := ⟨shares₁.relation, shares₁.logFile⟩
  obtain ⟨opens', state₃, accessor', run₃, shares₃, idle₃, accessors₃, others₃⟩ := sane₁.run_open shares₂ absent
  obtain ⟨scene₂, sane₂, size₂⟩ := sane₁.perform_within .openAccessor 1 size₁ (by decide)
  generalize (service₁.perform .openAccessor).2 = service₂ at shares₃ accessors₃ sane₂ size₂
  rw [accessors₁] at accessors₃
  have at_one : service₂.accessors[1]? = some accessor' := by
    rw [accessors₃]
    rfl
  have room : service₂.size + (Use.insert 3 [8]).demand ⟨1, false⟩ < 2 ^ 32 :=
    Nat.lt_of_le_of_lt (Nat.add_le_add_right size₂ _) (by decide)
  obtain ⟨inserts, state₄, run₄, shares₄, others₄⟩ := sane₂.run_called_insert shares₃ at_one (fits 8) room idle₃
  obtain ⟨scene₃, sane₃, size₃⟩ := sane₂.perform_within (.use 1 (.insert 3 [8])) (2 ^ 20)
    (Nat.le_trans (Nat.add_le_add_right size₂ _) (by decide)) (by decide)
  have at_zero : (service₂.perform (.use 1 (.insert 3 [8]))).2.accessors[0]? = some accessor := by
    rw [Service.perform, accessors₃]
    rfl
  generalize (service₂.perform (.use 1 (.insert 3 [8]))).2 = service₃ at shares₄ sane₃ size₃ at_zero
  -- the first insert goes on
  have waiting : state₄.users 0 = .busy (.insert 3 [7]) accessor rest :=
    (others₄ 0 (by decide)).trans ((others₃ 0 (by decide)).trans (Interplay.users_after_same _ _ _ _))
  obtain ⟨inserts', state, run₅, shares₅, -⟩ := sane₃.run_insert shares₄ at_zero (fits 7)
    (Nat.lt_of_le_of_lt (Nat.add_le_add_right size₃ _) (by decide)) waiting (rest_run _ rfl)
  obtain ⟨scene, -, size⟩ := sane₃.perform_within (.use 0 (.insert 3 [7])) (2 ^ 21)
    (Nat.le_trans (Nat.add_le_add_right size₃ _) (by decide)) (by decide)
  have small : state.size < 2 ^ 32 := by
    rw [Interplay.size, shares₅.relation]
    exact Nat.lt_of_le_of_lt size (by decide)
  have run := run₁.append (run₂.append (run₃.append (run₄.append run₅)))
  obtain ⟨matched, -, -, keeps⟩ := keeps _ _ run small
  have nobody_after : ∀ new, ¬ granted ⟨1, false⟩ [] (Addressing.start ⟨1, false⟩ 3) new := by
    rintro new ⟨_, mem, -⟩
    exact absurd mem List.not_mem_nil
  obtain ⟨place, payload, stores, only, whose⟩ := keeps _ 0 3 [7] []
    (by simp only [Event.turns, ← List.append_assoc]; rfl) (nobody_after none)
  have mine : payload = [7] := whose.resolve_right (nobody_after (some payload))
  exact ⟨service, opens, opens', inserts, inserts', state, place, created, run, small, matched, mine ▸ stores, only⟩

end Warehouse.RangeIndex
