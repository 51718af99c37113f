import Warehouse.Proofs.RangeIndex.Services
import Warehouse.Proofs.RangeIndex.Turns

/-! # Disturbed calls

A user may want an operation to stop, which it notices where it asks for that, and other workers
may add pages to the relation right before the operation adds one. `Attempt` relates an operation
to what may come of it then; `attempt_run` says that a run without disturbance is an attempt. An
operation with a contract among others keeps it in every attempt. An operation with a contract
for itself comes to what the contract says unless it was told to stop, as long as its log need
not account for the pages of the other workers. `Scene.far` is a scene with the same pages whose
log accounts for none, so that this can be said of any relation. -/

namespace Warehouse.RangeIndex

/-- What may come of a request. -/
inductive World.Yields (world : World) : (request : Request) → Except Failure request.Answer × World → Prop
  | undisturbed (request : Request) : Yields world request (world.perform request)
  /-- The user wants the operation to stop. -/
  | cancelled : Yields world .poll (.error (.error .cancelled), world)
  /-- Others add pages first. -/
  | overtaken (extra : Nat) : Yields world .allocate
      (World.perform { world with relation.interference.growth := some ⟨extra, 0⟩ } .allocate)

/-- What may come of an operation. -/
inductive Attempt {α : Type} : Procedure α → World → Except Failure α → World → Prop
  | done {value : α} {world : World} : Attempt (.done value) world (.ok value) world
  | fail {failure : Failure} {world : World} : Attempt (.fail failure) world (.error failure) world
  | refused {request : Request} {next : request.Answer → Procedure α} {failure : Failure} {world after : World}
      (yields : world.Yields request (.error failure, after)) :
      Attempt (.ask request next) world (.error failure) after
  | answered {request : Request} {next : request.Answer → Procedure α} {answer : request.Answer}
      {world middle after : World} {outcome : Except Failure α} (yields : world.Yields request (.ok answer, middle))
      (rest : Attempt (next answer) middle outcome after) : Attempt (.ask request next) world outcome after

section Attempts

variable {α β : Type} {procedure : Procedure α} {rest : α → Procedure β} {world after : World}

/-- A run that nobody disturbs is an attempt. -/
theorem attempt_run (procedure : Procedure α) (world : World) :
    Attempt procedure world (procedure.run world).1 (procedure.run world).2 := by
  induction procedure generalizing world with
  | done value => exact .done
  | fail failure => exact .fail
  | ask request next ih =>
      have yields : world.Yields request (world.perform request) := .undisturbed request
      rw [Procedure.run]
      cases performed : world.perform request with
      | mk outcome middle =>
          rw [performed] at yields
          cases outcome with
          | ok answer => exact .answered yields (ih answer middle)
          | error failure => exact .refused yields

/-- A request that nobody disturbs. -/
theorem Attempt.request {request : Request} {answer : request.Answer} {next : request.Answer → Procedure α}
    {middle : World} {outcome : Except Failure α} (performed : world.perform request = (.ok answer, middle))
    (rest : Attempt (next answer) middle outcome after) :
    Attempt (Procedure.request request >>= next) world outcome after := by
  have yields : world.Yields request (world.perform request) := .undisturbed request
  rw [performed] at yields
  exact .answered yields rest

theorem Attempt.accessor {next : Accessor → Procedure α} {outcome : Except Failure α}
    (rest : Attempt (next world.accessor) world outcome after) :
    Attempt (Procedure.accessor >>= next) world outcome after :=
  .answered (.undisturbed .accessor) rest

end Attempts

/-! ## Adding pages -/

section Growing

variable {relation : Relation} {file : ByteArray} {scene : Scene} {telling : Telling}

theorem growBy_succ (relation : Relation) (count : Nat) :
    relation.growBy (count + 1) = (relation.growBy count).grow := by
  induction count generalizing relation with
  | zero => rfl
  | succ count ih => exact ih relation.grow

theorem pagesOf_growBy (relation : Relation) (count : Nat) :
    pagesOf (relation.growBy count) = (pagesOf relation).growBy count := by
  induction count with
  | zero => rfl
  | succ count ih => rw [growBy_succ, pagesOf_grow, ih, Image.growBy_succ]

theorem buffers_growBy (relation : Relation) (count : Nat) :
    (relation.growBy count).buffers.size = relation.buffers.size + count := by
  rw [← size_pagesOf, pagesOf_growBy, Image.size_growBy, size_pagesOf]

/-- Adding pages changes nothing else. -/
theorem growBy_eq (relation : Relation) (count : Nat) :
    relation.growBy count = { relation with buffers := (relation.growBy count).buffers } := by
  induction count with
  | zero => rfl
  | succ count ih =>
      rw [growBy_succ, ih]
      rfl

/-- A relation with more pages shows a scene with more pages. -/
theorem Shows.growBy (shows : Shows relation file scene telling) (count : Nat) :
    Shows (relation.growBy count) file ⟨scene.image.growBy count, scene.log⟩ telling := by
  have pages := pagesOf_growBy relation count
  rw [shows.pages] at pages
  rw [growBy_eq] at pages ⊢
  exact ⟨shows.alone, pages, shows.unlogged, shows.logged⟩

/-- Adding a page to a relation after others have added some. -/
theorem allocate_overtaken (alone : relation.interference = .none) (extra : Nat) :
    Relation.allocate { relation with interference.growth := some ⟨extra, 0⟩ } =
      if invalidBlock.toNat < relation.buffers.size + extra then
        (.error (.invalidBlock invalidBlock), relation.growBy extra)
      else (.ok (UInt32.ofNat (relation.buffers.size + extra)), relation.growBy (extra + 1)) := by
  have same : { relation with interference.growth := none } = relation := by
    obtain ⟨name, buffers, log, interference⟩ := relation
    obtain rfl : interference = .none := alone
    rfl
  simp only [Relation.allocate, Option.getD_some]
  rw [same, buffers_growBy, growBy_succ, Relation.blockCount, buffers_growBy, if_pos trivial]

end Growing

/-! ## Contracts -/

/-- What is known after a request. When the operation is alone, it fails only if it is told to
stop. -/
def Moment.Yielded (mode : Mode) {α : Type} (base : Scene) (telling : Telling) (next : α → Moment → Prop) :
    Except Failure α × World → Prop
  | (.ok answer, world) => ∃ later, Models world later telling ∧ later.base = base ∧ next answer later
  | (.error failure, world) => mode = .solo ∧ failure = .error .cancelled ∨
      ∃ later, Models world later telling ∧ later.base = base ∧ later.MayFail mode

section Contracts

variable {α : Type} {mode : Mode} {post : α → Moment → Prop} {procedure : Procedure α} {outcome : Except Failure α}
  {world after : World} {moment : Moment} {telling : Telling}

/-- No request makes it the operation's business who else adds pages. -/
theorem Moment.Serves.unreserved {request : Request} {next : request.Answer → Moment → Prop}
    (h : moment.Serves mode request next) : moment.Serves mode request fun answer later =>
      next answer later ∧ (later.scene.Reserved → moment.scene.Reserved) := by
  cases request with
  | poll =>
      refine ⟨h.1, ?_⟩
      by_cases cancelled : moment.accessor.cancelled = true
      · rw [if_pos cancelled]
        exact (if_pos cancelled).mp h.2
      · rw [if_neg cancelled]
        exact ⟨(if_neg cancelled).mp h.2, id⟩
  | accessor => exact ⟨h, id⟩
  | remember accessor => exact ⟨h.1, h.2, id⟩
  | countBlocks => exact ⟨h, id⟩
  | pin block =>
      simp only [Moment.Serves] at h ⊢
      split at h
      · exact h
      · exact ⟨h, id⟩
  | allocate =>
      intro extra alone room
      refine ⟨h extra alone room, ?_⟩
      rintro (empty | logged)
      · rw [Moment.withImage, Image.size_growBy] at empty
        exact absurd empty (Nat.succ_ne_zero _)
      · exact .inr logged
  | view block => exact Moment.Locks.mono h fun page served => ⟨served, id⟩
  | acquire block => exact Moment.Locks.mono h fun page served => ⟨served, id⟩
  | write block page =>
      refine ⟨h, ?_⟩
      rintro (empty | logged)
      · rw [Moment.withImage, Image.size_put] at empty
        exact .inl empty
      · exact .inr logged
  | markDirty block => exact ⟨h, id⟩
  | release block => exact ⟨h, id⟩
  | releaseAll => exact ⟨h, id⟩
  | append record =>
      simp only [Moment.Serves] at h ⊢
      refine ⟨h.1, ?_⟩
      have served := h.2
      split at served
      · exact ⟨served, id⟩
      · rename_i journal log
        refine ⟨served, ?_⟩
        rintro (empty | ⟨pushed, eq, room⟩)
        · exact .inl empty
        · obtain rfl := Option.some.inj eq
          exact .inr ⟨journal, log, Nat.lt_trans (journal.stop_lt_push record) room⟩

theorem World.Yields.size_le {request : Request} {result : Except Failure request.Answer × World}
    (yields : world.Yields request result) : world.relation.buffers.size ≤ result.2.relation.buffers.size := by
  cases yields with
  | undisturbed => exact size_perform world request
  | cancelled => exact Nat.le_refl _
  | overtaken extra => exact size_perform { world with relation.interference.growth := some ⟨extra, 0⟩ } .allocate

theorem Attempt.size_le (attempt : Attempt procedure world outcome after) :
    world.relation.buffers.size ≤ after.relation.buffers.size := by
  induction attempt with
  | done => exact Nat.le_refl _
  | fail => exact Nat.le_refl _
  | refused yields => exact yields.size_le
  | answered yields rest ih => exact Nat.le_trans yields.size_le ih

/-- A request keeps its contract whatever comes of it. -/
theorem Models.yields {request : Request} {next : request.Answer → Moment → Prop}
    {result : Except Failure request.Answer × World} (models : Models world moment telling)
    (serves : moment.Serves mode request next) (calm : mode = .solo → ¬ moment.scene.Reserved)
    (yields : world.Yields request result) (room : result.2.relation.buffers.size < 2 ^ 32) :
    Moment.Yielded mode moment.base telling next result := by
  cases yields with
  | undisturbed =>
      have served := models.serves serves room
      rw [World.Serves] at served
      split at served
      · rename_i performed
        rw [performed]
        exact served
      · rename_i performed
        rw [performed]
        exact .inr served
  | cancelled =>
      by_cases alone : mode = .solo
      · exact .inl ⟨alone, rfl⟩
      · exact .inr ⟨moment, models, rfl, alone, serves.1 alone⟩
  | overtaken extra =>
      -- the contract of an allocation is about all pages that are added
      have shows := models.shows
      have size : moment.scene.image.size = world.relation.buffers.size := by rw [← shows.pages, size_pagesOf]
      have performed := allocate_overtaken shows.alone extra
      simp only [World.perform] at room ⊢
      by_cases full : invalidBlock.toNat < world.relation.buffers.size + extra
      · rw [performed, if_pos full] at room
        simp only [buffers_growBy] at room
        exact absurd full (Nat.not_lt.mpr (Nat.le_of_lt_succ room))
      · rw [performed, if_neg full] at room ⊢
        simp only [buffers_growBy] at room
        have served := serves extra (fun alone reserved => absurd reserved (calm alone)) (by omega)
        rw [size] at served
        exact ⟨moment.withImage (moment.scene.image.growBy (extra + 1)),
          ⟨shows.growBy (extra + 1), models.accessor, models.held⟩, rfl, served⟩

/-- The next request of an operation when nobody else acts before it. Where the operation holds no
lock, what it did so far is something that operations do. -/
theorem Ensures.rebase {request : Request} {next : request.Answer → Procedure α}
    (ensures : Ensures mode post (.ask request next) moment) : ∃ base, Evolves mode moment.base base ∧
      Moment.Serves mode { moment with base } request fun answer later => Ensures mode post (next answer) later := by
  rw [Ensures] at ensures
  split at ensures
  · exact ⟨moment.scene, ensures.1, ensures.2 moment.scene (.refl _ _)⟩
  · exact ⟨moment.base, .refl, ensures⟩

/-- Among others an operation keeps its contract in every attempt. What it did until it last had no
lock is something that operations do. -/
theorem Ensures.attempt (ensures : Ensures mode post procedure moment) (models : Models world moment telling)
    (others : mode ≠ .solo) (attempt : Attempt procedure world outcome after)
    (room : after.relation.buffers.size < 2 ^ 32) :
    ∃ later, Models after later telling ∧ Evolves mode moment.base later.base ∧
      (Stop.ended outcome).Keeps mode post later := by
  -- nobody acts between two requests, so that every one of them starts from the scene as it is
  induction attempt generalizing moment with
  | done => exact ⟨moment, models, .refl, ensures⟩
  | fail => exact ⟨moment, models, .refl, ensures⟩
  | refused yields =>
      obtain ⟨base, evolves, serves⟩ := ensures.rebase
      have models' : Models _ { moment with base } telling := ⟨models.shows, models.accessor, models.held⟩
      have yielded := models'.yields serves (fun alone => absurd alone others) yields room
      obtain ⟨later, models'', rfl, fails⟩ := yielded.resolve_left fun alone => others alone.1
      exact ⟨later, models'', evolves, fails⟩
  | answered yields rest ih =>
      obtain ⟨base, evolves, serves⟩ := ensures.rebase
      have models' : Models _ { moment with base } telling := ⟨models.shows, models.accessor, models.held⟩
      obtain ⟨later, models'', rfl, ensures'⟩ :=
        models'.yields serves (fun alone => absurd alone others) yields (Nat.lt_of_le_of_lt rest.size_le room)
      obtain ⟨last, models₃, evolves', keeps⟩ := ih ensures' models'' room
      exact ⟨last, models₃, evolves.trans evolves', keeps⟩

/-- Alone, an operation comes to what its contract says in every attempt in which it is not told
to stop. -/
theorem Ensures.attempt_alone (ensures : Ensures .solo post procedure moment) (models : Models world moment telling)
    (calm : ¬ moment.scene.Reserved) (attempt : Attempt procedure world outcome after)
    (room : after.relation.buffers.size < 2 ^ 32) :
    outcome = .error (.error .cancelled) ∨ ∃ value later, outcome = .ok value ∧ Models after later telling ∧
      ¬ later.scene.Reserved ∧ post value later := by
  induction attempt generalizing moment with
  | done => exact .inr ⟨_, moment, rfl, models, calm, ensures⟩
  | fail => exact absurd rfl ensures.1
  | refused yields =>
      obtain ⟨base, -, serves⟩ := ensures.rebase
      have models' : Models _ { moment with base } telling := ⟨models.shows, models.accessor, models.held⟩
      rcases models'.yields serves (fun _ => calm) yields room with ⟨-, rfl⟩ | ⟨later, -, -, fails⟩
      · exact .inl rfl
      · exact absurd rfl fails.1
  | answered yields rest ih =>
      obtain ⟨base, -, serves⟩ := ensures.rebase
      have models' : Models _ { moment with base } telling := ⟨models.shows, models.accessor, models.held⟩
      obtain ⟨later, models'', -, ensures', unreserved⟩ :=
        models'.yields serves.unreserved (fun _ => calm) yields (Nat.lt_of_le_of_lt rest.size_le room)
      exact ih ensures' models'' (fun reserved => calm (unreserved reserved)) room

end Contracts

/-! ## Scenes whose pages the log does not account for -/

theorem Journal.stop_nil (start : Nat) : Journal.stop ⟨start, []⟩ = start := Nat.add_zero start

/-- The scene with a log that has grown beyond all positions, so that it accounts for no page. -/
def Scene.far (scene : Scene) : Scene :=
  ⟨scene.image, scene.log.map fun journal => ⟨journal.stop + 2 ^ 64, []⟩⟩

section Far

variable {relation : Relation} {file : ByteArray} {scene : Scene}

theorem Scene.log_far {journal : Journal} (log : scene.far.log = some journal) : 2 ^ 64 ≤ journal.stop := by
  obtain ⟨before, -, rfl⟩ := Option.map_eq_some_iff.mp log
  rw [Journal.stop_nil]
  exact Nat.le_add_left (2 ^ 64) before.stop

theorem Scene.not_loose_far (block : BlockNumber) : ¬ scene.far.Loose block := by
  rintro ⟨journal, page, log, room, -⟩
  exact absurd room (Nat.not_lt.mpr (log_far log))

theorem Scene.not_reserved_far (nonempty : scene.image.size ≠ 0) : ¬ scene.far.Reserved := by
  rintro (empty | ⟨journal, log, room⟩)
  · exact nonempty empty
  · exact absurd room (Nat.not_lt.mpr (log_far log))

/-- Positions wrap around, so that the log of a relation has those of the long log. -/
theorem Shows.far (shows : Shows relation file scene) : Shows relation file scene.far .positions where
  alone := shows.alone
  pages := shows.pages
  unlogged := shows.unlogged.trans Option.map_eq_none_iff.symm
  logged writer journal log log' := by
    obtain ⟨before, known, rfl⟩ := Option.map_eq_some_iff.mp log'
    have told := (shows.logged writer before log known).position
    change UInt64.ofNat writer.position = UInt64.ofNat (Journal.stop ⟨before.stop + 2 ^ 64, []⟩)
    apply UInt64.toNat_inj.mp
    rw [told, Journal.stop_nil, UInt64.toNat_ofNat', UInt64.toNat_ofNat', Nat.add_mod_right]

end Far

/-! ## Uses of an accessor -/

section Uses

variable {mode : Mode} {moment : Moment} {may : Prop}

/-- Among others a use of an accessor keeps its contract up to its end, also when it has no right to
make the binding that it is called for. -/
theorem Use.ensures (use : Use) (others : mode ≠ .solo) (steady : Steady mode moment) (free : moment.held = [])
    (grants : may → ∀ heapBlock payload, mode.Grants heapBlock (some payload)) :
    Ensures mode (fun _ later => may → Steady mode later) use.procedure moment := by
  have shared : ∀ {statement : Prop}, mode = .solo → statement := fun solo => absurd solo others
  cases use with
  | insert heapBlock payload =>
      apply (insert_spec steady free shared shared (fun allowed => grants allowed _ _) shared).andThen
      intro place later inserted
      obtain ⟨-, steady', -⟩ := inserted
      exact steady'
  | ensure heapBlock =>
      apply (ensure_spec steady free shared shared).andThen
      intro block later ensured
      obtain ⟨-, steady', -⟩ := ensured
      exact fun _ => steady'
  | find heapBlock =>
      apply (find_spec steady free shared).andThen
      intro found later located
      obtain ⟨looks, -⟩ := located
      exact fun _ => looks.steady

end Uses

end Warehouse.RangeIndex
