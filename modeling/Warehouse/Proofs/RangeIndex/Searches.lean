import Warehouse.Proofs.RangeIndex.Interleavings

/-! # Searches among other operations

A search for the summary of a range holds no lock between its reads, and in between others may
move the summary, remove it or store another one in its place. A summary that the search
answers is nevertheless one that the range has: at the moment of the answer the range is bound
to it. An answer without a summary says less, because a summary that was moved from its place
after the search had read the entry looks like one that was removed. -/

namespace Warehouse.RangeIndex

namespace Interplay

variable {α : Type}

/-- The state after a turn of an operation that belongs to none of the users. -/
def moved (state : Interplay) (world : World) : Interplay := ⟨world.relation, world.logFile, state.users⟩

/-- An operation takes its turns among those of the users, from its first one to its end. -/
inductive Attends : Interplay → Procedure α → Accessor → Except Failure α → Interplay → Prop
  | last {state : Interplay} {procedure : Procedure α} {accessor : Accessor} {outcome : Except Failure α}
      {world : World} (turn : Turn procedure (state.world accessor) (.ended outcome) world) :
      Attends state procedure accessor outcome (state.moved world)
  | more {state middle last : Interplay} {procedure rest : Procedure α} {accessor : Accessor}
      {outcome : Except Failure α} {world : World} {events : List Event}
      (turn : Turn procedure (state.world accessor) (.paused rest) world)
      (others : Run (state.moved world) events middle)
      (attends : Attends middle rest world.accessor outcome last) :
      Attends state procedure accessor outcome last

theorem Attends.size_le {state last : Interplay} {procedure : Procedure α} {accessor : Accessor}
    {outcome : Except Failure α} (attends : Attends state procedure accessor outcome last) :
    state.size ≤ last.size := by
  induction attends with
  | last turn => exact turn.size_le
  | more turn others _ ih => exact Nat.le_trans turn.size_le (Nat.le_trans others.size_le ih)

end Interplay

section Attending

variable {α : Type} {addressing : Addressing} {state last : Interplay} {scene : Scene} {world : World}
  {moment : Moment} {procedure : Procedure α} {accessor : Accessor} {outcome : Except Failure α}
  {events : List Event} {post : α → Moment → Prop}

/-- What users know stays right when an operation that is none of theirs takes a turn. -/
theorem Orderly.moved (orderly : Orderly addressing state scene) (models : Models world moment)
    (evolves : Evolves (.shared .all) scene moment.scene) : Orderly addressing (state.moved world) moment.scene := by
  obtain ⟨contents, sound, grows⟩ := Evolves.sound evolves orderly.sound
  obtain rfl := Image.contents_eq sound.holds
  exact ⟨models.shows, sound, evolves.gapless orderly.sound orderly.gapless rfl,
    grows.addressing_eq.trans orderly.addressing_eq, fun user => (orderly.ready user).later orderly.sound evolves⟩

/-- An operation that attends keeps its contract, and the index stays sound. -/
theorem Orderly.attends {rights : Rights} (orderly : Orderly addressing state scene)
    (attends : state.Attends procedure accessor outcome last)
    (ensures : ∀ later, Evolves (.shared .all) scene later →
      Ensures (.shared rights) post procedure ⟨later, later, accessor, []⟩)
    (steady : ∀ value later, post value later → Steady (.shared rights) later) (room : last.size < 2 ^ 32) :
    ∃ moment, Orderly addressing last moment.scene ∧ ∀ value, outcome = .ok value → post value moment := by
  induction attends generalizing scene with
  | @last state procedure accessor outcome world turn =>
      obtain ⟨moment, models, evolves, keeps⟩ := turn.keeps (ensures scene .refl) ⟨orderly.shows, rfl, rfl⟩
        (fun _ => rfl) (Mode.shared_ne_solo rights) steady room
      refine ⟨moment, orderly.moved models evolves.together, ?_⟩
      rintro value rfl
      exact keeps
  | @more state middle last procedure rest accessor outcome world events turn others attends ih =>
      have room' := Nat.lt_of_le_of_lt attends.size_le room
      obtain ⟨moment, models, evolves, keeps⟩ := turn.keeps (ensures scene .refl) ⟨orderly.shows, rfl, rfl⟩
        (fun _ => rfl) (Mode.shared_ne_solo rights) steady (Nat.lt_of_le_of_lt others.size_le room')
      obtain ⟨scene', orderly', evolves', -⟩ := (orderly.moved models evolves.together).run others room'
      refine ih orderly' (fun later evolves'' => ?_) room
      rw [models.accessor]
      exact keeps later (evolves'.trans evolves'')

end Attending

/-- A summary that a search answers is one that the range has. Any users call any operations on an
index, and one of them searches for the summary of a range while the others go on. When the
search answers a summary, it is one of the range, the range is bound to it, and it lies at the
place that the search answers. -/
theorem search_answers_binding {log : Option Log.Writer} {file : ByteArray} {pagesPerRange : UInt32}
    (name : String) (appendOnly : Bool)
    (bounds : 1 ≤ pagesPerRange.toNat ∧ pagesPerRange.toNat ≤ maxPagesPerRange)
    (at_end : ∀ writer, log = some writer → writer.AtEnd file) :
    ∃ service, Service.create (.empty name log) file pagesPerRange appendOnly = .ok service ∧
      ∀ events state user accessor rounds heapBlock found last, Interplay.Run (.ofService service) events state →
        state.users user = .idle accessor →
        state.Attends (RangeMap.find rounds heapBlock) accessor (.ok (some found)) last → last.size < 2 ^ 32 →
        found.summary.heapBlock = Addressing.start ⟨pagesPerRange, appendOnly⟩ heapBlock ∧
        Binds last.image last.image.contents found.summary.heapBlock found.summary.payload ∧
        last.image.Stores found.place found.summary := by
  obtain ⟨service, created, sane⟩ := exists_created name appendOnly bounds at_end
  refine ⟨service, created, fun events state user accessor rounds heapBlock found last run at_user attends room => ?_⟩
  obtain ⟨scene, orderly, -, -⟩ := sane.orderly.run run (Nat.lt_of_le_of_lt attends.size_le room)
  -- the search takes no right to change a binding
  have ensures : ∀ later, Evolves (.shared .all) scene later →
      Ensures (.shared .none) (fun found moment => Steady (.shared .none) moment ∧ ∀ summary, found = some summary →
        Located moment (Addressing.start ⟨pagesPerRange, appendOnly⟩ heapBlock) summary)
        (RangeMap.find rounds heapBlock) ⟨later, later, accessor, []⟩ := by
    intro later evolves
    obtain ⟨contents, sound, grows⟩ := Evolves.sound evolves orderly.sound
    obtain rfl := Image.contents_eq sound.holds
    have knows : Knows later.image later.image.contents accessor := by
      have ready := (orderly.ready user).later orderly.sound evolves
      rwa [at_user] at ready
    have same : later.image.contents.addressing = ⟨pagesPerRange, appendOnly⟩ :=
      grows.addressing_eq.trans orderly.addressing_eq
    have steady : Steady (.shared .none) ⟨later, later, accessor, []⟩ :=
      ⟨sound, knows, fun _ => evolves.gapless orderly.sound orderly.gapless rfl, .refl⟩
    refine (find_spec steady rfl fun solo => absurd solo (Mode.shared_ne_solo _)).mono ?_
    rintro found moment ⟨looks, located, -⟩
    refine ⟨looks.steady, fun summary eq => ?_⟩
    rw [← same]
    exact located summary eq
  obtain ⟨moment, orderly', post⟩ := orderly.attends attends ensures (fun _ _ post => post.1) room
  obtain ⟨heapBlock_eq, binds, bytes, tuple, decoded⟩ := (post _ rfl).2 found rfl
  have image_eq : last.image = moment.scene.image := orderly'.shows.pages
  rw [image_eq]
  refine ⟨heapBlock_eq, ?_, orderly'.sound.stores_iff.mpr ⟨bytes, tuple, decoded⟩⟩
  rw [heapBlock_eq]
  exact binds

end Warehouse.RangeIndex
