import Warehouse.Proofs.Log.Frames
import Warehouse.Proofs.RangeIndex.Creation

/-! # Running operations

A relation on which nobody else acts shows a scene: its pages are those of the scene, and its
log holds the frames of the journal. Performing a request keeps this up, and brings about what
the contract of the request says. Hence an operation whose contract holds alone runs to its
end, as long as the relation has fewer pages than there are block numbers. -/

namespace Warehouse.RangeIndex

theorem Journal.stop_eq (journal : Journal) : journal.stop = journal.start + (Log.framesOf journal.records).length := by
  rw [stop, Log.framesOf, List.length_flatMap]

theorem Journal.framesOf_push (journal : Journal) (record : Log.Record) :
    Log.framesOf (journal.push record).records = Log.framesOf journal.records ++ Log.encodeFrame record := by
  rw [push, Log.framesOf_append, Log.framesOf_cons]
  exact congrArg _ (List.append_nil _)

/-- The writer adds to a log that ends with the frames of the journal. -/
structure Journal.WrittenBy (journal : Journal) (writer : Log.Writer) (file : ByteArray) : Prop where
  position : writer.position = journal.stop
  contents : ∃ front, front.length = journal.start ∧
    writer.contents file = front ++ Log.framesOf journal.records

namespace Journal.WrittenBy

variable {journal : Journal} {writer writer' : Log.Writer} {file file' : ByteArray} {record : Log.Record} {lsn : Lsn}

theorem atEnd (h : journal.WrittenBy writer file) : writer.AtEnd file := by
  obtain ⟨front, length, contents⟩ := h.contents
  rw [Log.Writer.AtEnd, h.position, contents, List.length_append, length, journal.stop_eq]

theorem append (h : journal.WrittenBy writer file) (eq : writer.append file record = (lsn, writer', file')) :
    lsn = journal.position record ∧ (journal.push record).WrittenBy writer' file' := by
  obtain ⟨rfl, position, contents⟩ := Log.Writer.append_spec h.atEnd eq
  obtain ⟨front, length, before⟩ := h.contents
  refine ⟨by rw [h.position, Journal.position], ?_, front, length, ?_⟩
  · rw [position, h.position, Journal.stop_push]
  · rw [contents, before, Journal.framesOf_push, List.append_assoc]

end Journal.WrittenBy

/-- How the log of a relation tells of the journal of a scene. A record that is written to it stands
at the position that the journal gives it. -/
structure Telling where
  tells : Journal → Log.Writer → ByteArray → Prop
  append : ∀ {journal writer file record lsn writer' file'}, tells journal writer file →
    writer.append file record = (lsn, writer', file') →
    lsn = journal.position record ∧ tells (journal.push record) writer' file'

namespace Telling

/-- The log ends with the frames of the journal. -/
def frames : Telling := ⟨Journal.WrittenBy, Journal.WrittenBy.append⟩

/-- Whatever the log holds, its positions are those of the journal. -/
def positions : Telling where
  tells journal writer _ := UInt64.ofNat writer.position = UInt64.ofNat journal.stop
  append told eq := by
    obtain ⟨rfl, position⟩ := Log.Writer.position_append eq
    rw [Journal.position, Journal.stop_push, position, UInt64.ofNat_add, told, UInt64.ofNat_add]
    exact ⟨rfl, rfl⟩

end Telling

/-- The pages of a relation. -/
def pagesOf (relation : Relation) : Image := relation.buffers.map Buffer.page

/-- The relation is as the scene says, and nobody else acts on it. -/
structure Shows (relation : Relation) (file : ByteArray) (scene : Scene) (telling : Telling := .frames) : Prop where
  alone : relation.interference = .none
  pages : pagesOf relation = scene.image
  unlogged : relation.log = none ↔ scene.log = none
  logged : ∀ writer journal, relation.log = some writer → scene.log = some journal →
    telling.tells journal writer file

/-- What an operation acts on is as it sees it. -/
structure Models (world : World) (moment : Moment) (telling : Telling := .frames) : Prop where
  shows : Shows world.relation world.logFile moment.scene telling
  accessor : world.accessor = moment.accessor
  held : world.held = moment.held

section Pages

variable {relation : Relation} {block : BlockNumber} {page : Page}

@[simp]
theorem size_pagesOf (relation : Relation) : (pagesOf relation).size = relation.buffers.size :=
  Array.size_map

theorem page?_pagesOf (relation : Relation) (block : BlockNumber) :
    (pagesOf relation).page? block = relation.page? block := by
  rw [Image.page?, pagesOf, Array.getElem?_map]
  rfl

theorem pagesOf_setPage : pagesOf (relation.setPage block page) = (pagesOf relation).put block page := by
  refine Array.ext_getElem? fun i => ?_
  rw [pagesOf, Relation.setPage, Image.put, Array.getElem?_map, Array.getElem?_modify, Array.getElem?_setIfInBounds,
    size_pagesOf, pagesOf, Array.getElem?_map]
  by_cases here : block.toNat = i
  · subst here
    rw [if_pos rfl, if_pos rfl]
    by_cases inside : block.toNat < relation.buffers.size
    · rw [if_pos inside, Array.getElem?_eq_getElem inside]
      rfl
    · rw [if_neg inside, Array.getElem?_eq_none (Nat.not_lt.mp inside)]
      rfl
  · rw [if_neg here, if_neg here]

theorem pagesOf_markDirty : pagesOf (relation.markDirty block) = pagesOf relation := by
  refine Array.ext_getElem? fun i => ?_
  rw [pagesOf, Relation.markDirty, Array.getElem?_map, Array.getElem?_modify, pagesOf, Array.getElem?_map]
  split
  · rw [Option.map_map]
    rfl
  · rfl

theorem pagesOf_grow : pagesOf relation.grow = (pagesOf relation).push .zero :=
  Array.map_push

end Pages

/-! ## Sizes only grow -/

section Sizes

variable {α : Type}

theorem size_beforeReading (relation : Relation) (block : BlockNumber) :
    (relation.beforeReading block).buffers.size = relation.buffers.size := by
  rw [Relation.beforeReading]
  split
  · rfl
  · split
    · rfl
    · split
      · simp only
        split
        · rfl
        · exact Array.size_modify
      · rfl

theorem size_read (relation : Relation) (block : BlockNumber) :
    (relation.read block).2.buffers.size = relation.buffers.size := by
  rw [Relation.read]
  split <;> exact size_beforeReading relation block

theorem size_growBy (relation : Relation) (count : Nat) :
    relation.buffers.size ≤ (relation.growBy count).buffers.size := by
  induction count generalizing relation with
  | zero => exact Nat.le_refl _
  | succ count ih =>
      refine Nat.le_trans ?_ (ih relation.grow)
      rw [Relation.grow, Array.size_push]
      exact Nat.le_succ _

theorem size_allocate (relation : Relation) : relation.buffers.size ≤ relation.allocate.2.buffers.size := by
  have grown := size_growBy { relation with interference.growth := none }
    (relation.interference.growth.getD ⟨0, 0⟩).extraPages
  simp only [Relation.allocate]
  split
  · exact grown
  · split
    · simp only [Relation.grow, Array.size_push]
      exact Nat.le_succ_of_le grown
    · simp only [Relation.setPage, Relation.grow, Array.size_modify, Array.size_push]
      exact Nat.le_succ_of_le grown

theorem size_logRecord (relation : Relation) (file : ByteArray) (record : Log.Record) :
    (relation.logRecord file record).2.1.buffers.size = relation.buffers.size := by
  rw [Relation.logRecord]
  split
  · rfl
  · simp only
    split <;> rfl

/-- A request adds pages or none. -/
theorem size_perform (world : World) (request : Request) :
    world.relation.buffers.size ≤ (world.perform request).2.relation.buffers.size := by
  cases request with
  | pin block =>
      have size := size_read world.relation block
      simp only [World.perform]
      split <;> rename_i eq <;> rw [eq] at size <;> exact Nat.le_of_eq size.symm
  | allocate =>
      have size := size_allocate world.relation
      simp only [World.perform]
      split <;> rename_i eq <;> rw [eq] at size <;> exact size
  | acquire block =>
      simp only [World.perform]
      split <;> exact Nat.le_refl _
  | write block page => exact Nat.le_of_eq Array.size_modify.symm
  | markDirty block => exact Nat.le_of_eq Array.size_modify.symm
  | append record =>
      have size := size_logRecord world.relation world.logFile record
      simp only [World.perform]
      split <;> rename_i eq <;> rw [eq] at size <;> exact Nat.le_of_eq size.symm
  | _ => exact Nat.le_refl _

/-- An operation adds pages or none. -/
theorem size_run (procedure : Procedure α) (world : World) :
    world.relation.buffers.size ≤ (procedure.run world).2.relation.buffers.size := by
  induction procedure generalizing world with
  | done value => exact Nat.le_refl _
  | fail failure => exact Nat.le_refl _
  | ask request next ih =>
      have first := size_perform world request
      rw [Procedure.run]
      split
      · rename_i answer world' eq
        rw [eq] at first
        exact Nat.le_trans first (ih answer world')
      · rename_i failure world' eq
        rw [eq] at first
        exact first

end Sizes

/-! ## What requests bring about -/

section Requests

variable {mode : Mode} {world : World} {moment : Moment} {telling : Telling}

/-- What it takes for a request to keep up its contract. -/
def World.Serves (mode : Mode) (world : World) (base : Scene) (request : Request)
    (next : request.Answer → Moment → Prop) (telling : Telling := .frames) : Prop :=
  match world.perform request with
  | (.ok answer, world') => ∃ later, Models world' later telling ∧ later.base = base ∧ next answer later
  | (.error _, world') => ∃ later, Models world' later telling ∧ later.base = base ∧ later.MayFail mode

theorem Models.locking {block : BlockNumber} {next : Page → Prop} (models : Models world moment telling)
    (h : moment.Locks mode block next) : match world.locking block with
      | .ok page => next page
      | .error _ => moment.MayFail mode := by
  rw [Moment.Locks, ← models.held, ← models.shows.pages, page?_pagesOf] at h
  rw [World.locking]
  split at h
  · rename_i contained
    rw [if_pos contained]
    exact h
  · rename_i free
    rw [if_neg free]
    split at h
    · rename_i none
      rw [none]
      exact h
    · rename_i page at'
      rw [at']
      exact h

/-- Reading a block when nobody else acts. -/
theorem read_alone {relation : Relation} (alone : relation.interference = .none) (block : BlockNumber) :
    relation.read block =
      (match (pagesOf relation).page? block with
        | some _ => .ok ()
        | none => .error (.invalidBlock block), relation) := by
  have change : relation.interference.change = none := by rw [alone]; rfl
  rw [page?_pagesOf, Relation.page?, Relation.read, Relation.beforeReading, change]
  cases relation.buffer? block with
  | none => rfl
  | some buffer => rfl

/-- Adding a page when nobody else acts. -/
theorem allocate_alone {relation : Relation} (alone : relation.interference = .none)
    (room : relation.buffers.size < 2 ^ 32) :
    relation.allocate = (.ok (UInt32.ofNat relation.buffers.size), relation.grow) := by
  have growth : relation.interference.growth = none := by rw [alone]; rfl
  have same : { relation with interference.growth := none } = relation := by
    obtain ⟨name, buffers, log, growth', change, failure⟩ := relation
    obtain rfl : growth' = none := growth
    rfl
  have fits : ¬ invalidBlock.toNat < relation.buffers.size := Nat.not_lt.mpr (Nat.le_of_lt_succ room)
  simp only [Relation.allocate, growth, Option.getD_none, Relation.growBy]
  rw [same, if_neg fits]
  rfl

/-- Performing a request on a relation that shows a scene. -/
theorem Models.serves {request : Request} {next : request.Answer → Moment → Prop}
    (models : Models world moment telling) (h : moment.Serves mode request next)
    (room : (world.perform request).2.relation.buffers.size < 2 ^ 32) :
    world.Serves mode moment.base request next telling := by
  have shows := models.shows
  have small : world.relation.buffers.size < 2 ^ 32 := Nat.lt_of_le_of_lt (size_perform world request) room
  cases request with
  | poll =>
      rw [Moment.Serves, ← models.accessor] at h
      simp only [World.Serves, World.perform]
      split at h
      · rename_i cancelled
        rw [if_pos cancelled]
        exact ⟨moment, models, rfl, h.2⟩
      · rename_i running
        rw [if_neg running]
        exact ⟨moment, models, rfl, h.2⟩
  | accessor =>
      rw [Moment.Serves, ← models.accessor] at h
      exact ⟨moment, models, rfl, h⟩
  | remember accessor => exact ⟨{ moment with accessor }, ⟨shows, rfl, models.held⟩, rfl, h.2⟩
  | countBlocks =>
      rw [Moment.Serves, ← shows.pages, size_pagesOf] at h
      exact ⟨moment, models, rfl, h⟩
  | pin block =>
      rw [Moment.Serves] at h
      simp only [World.Serves, World.perform, read_alone shows.alone block, shows.pages]
      split at h
      · rename_i none
        simp only [none]
        exact ⟨moment, ⟨shows, models.accessor, models.held⟩, rfl, h⟩
      · rename_i page at'
        simp only [at']
        exact ⟨moment, ⟨shows, models.accessor, models.held⟩, rfl, h⟩
  | allocate =>
      have eq := allocate_alone shows.alone small
      simp only [World.perform, eq] at room
      rw [Relation.grow, Array.size_push] at room
      have size : moment.scene.image.size = world.relation.buffers.size := by rw [← shows.pages, size_pagesOf]
      have served := h 0 (fun _ _ => rfl) (by rw [size]; exact room)
      rw [size] at served
      simp only [World.Serves, World.perform, eq]
      have pages := pagesOf_grow.trans (congrArg (Array.push · .zero) shows.pages)
      exact ⟨moment.withImage (moment.scene.image.push .zero),
        ⟨⟨shows.alone, pages, shows.unlogged, shows.logged⟩, models.accessor, models.held⟩, rfl, served⟩
  | view block =>
      have locked := models.locking h
      simp only [World.Serves, World.perform]
      cases eq : world.locking block with
      | ok page =>
          rw [eq] at locked
          exact ⟨moment, models, rfl, locked⟩
      | error failure =>
          rw [eq] at locked
          exact ⟨moment, models, rfl, locked⟩
  | acquire block =>
      have locked := models.locking h
      simp only [World.Serves, World.perform]
      cases eq : world.locking block with
      | ok page =>
          rw [eq] at locked
          exact ⟨{ moment with held := block :: moment.held },
            ⟨shows, models.accessor, congrArg (block :: ·) models.held⟩, rfl, locked⟩
      | error failure =>
          rw [eq] at locked
          exact ⟨moment, models, rfl, locked⟩
  | write block page =>
      have pages := pagesOf_setPage.trans (congrArg (Image.put · block page) shows.pages)
      exact ⟨moment.withImage (moment.scene.image.put block page),
        ⟨⟨shows.alone, pages, shows.unlogged, shows.logged⟩, models.accessor, models.held⟩, rfl, h⟩
  | markDirty block =>
      exact ⟨moment, ⟨⟨shows.alone, pagesOf_markDirty.trans shows.pages, shows.unlogged, shows.logged⟩,
        models.accessor, models.held⟩, rfl, h⟩
  | release block =>
      exact ⟨{ moment with held := moment.held.erase block },
        ⟨shows, models.accessor, congrArg (List.erase · block) models.held⟩, rfl, h⟩
  | releaseAll => exact ⟨{ moment with held := [] }, ⟨shows, models.accessor, rfl⟩, rfl, h⟩
  | append record =>
      rw [Moment.Serves] at h
      replace h := h.2
      simp only [World.Serves, World.perform, Relation.logRecord]
      cases log : world.relation.log with
      | none =>
          rw [shows.unlogged.mp log] at h
          exact ⟨moment, ⟨shows, models.accessor, models.held⟩, rfl, h⟩
      | some writer =>
          obtain ⟨journal, log'⟩ := Option.ne_none_iff_exists'.mp
            (fun none => by cases log.symm.trans (shows.unlogged.mpr none))
          rw [log'] at h
          have attempt : Relation.logAttempt world.relation.interference = (true, .none) := by
            rw [shows.alone]
            rfl
          cases appended : writer.append world.logFile record with
          | mk lsn rest =>
              obtain ⟨writer', file'⟩ := rest
              obtain ⟨rfl, written⟩ := telling.append (shows.logged writer journal log log') appended
              simp only [attempt, if_true, appended]
              refine ⟨{ moment with scene := ⟨moment.scene.image, some (journal.push record)⟩ }, ⟨⟨rfl, shows.pages,
                ⟨fun none => (by cases none), fun none => (by cases none)⟩, ?_⟩, models.accessor, models.held⟩, rfl, h⟩
              intro writer'' journal'' eq eq'
              obtain rfl := Option.some.inj eq
              obtain rfl := Option.some.inj eq'
              exact written

end Requests

/-- An operation whose contract holds alone runs to its end. -/
theorem Ensures.run {α : Type} {post : α → Moment → Prop} {procedure : Procedure α} {world : World} {moment : Moment}
    {telling : Telling} (h : Ensures .solo post procedure moment) (models : Models world moment telling)
    (room : (procedure.run world).2.relation.buffers.size < 2 ^ 32) :
    ∃ value later, (procedure.run world).1 = .ok value ∧ Models (procedure.run world).2 later telling ∧
      post value later := by
  induction procedure generalizing world moment with
  | done value => exact ⟨value, moment, rfl, models, h⟩
  | fail failure => exact absurd rfl h.1
  | ask request next ih =>
      obtain ⟨moment', models', serves⟩ : ∃ moment', Models world moment' telling ∧
          moment'.Serves .solo request fun answer later => Ensures .solo post (next answer) later := by
        rw [Ensures] at h
        split at h
        · exact ⟨{ moment with base := moment.scene }, ⟨models.shows, models.accessor, models.held⟩,
            h.2 moment.scene (.refl _ _)⟩
        · exact ⟨moment, models, h⟩
      rw [Procedure.run] at room ⊢
      cases performed : world.perform request with
      | mk outcome world' =>
          rw [performed] at room
          have small : (world.perform request).2.relation.buffers.size < 2 ^ 32 := by
            rw [performed]
            cases outcome with
            | ok answer => exact Nat.lt_of_le_of_lt (size_run (next answer) world') room
            | error failure => exact room
          have served := models'.serves serves small
          rw [World.Serves, performed] at served
          cases outcome with
          | ok answer =>
              obtain ⟨later, models'', -, ensures⟩ := served
              exact ih answer ensures models'' room
          | error failure =>
              obtain ⟨-, -, -, others, -⟩ := served
              exact absurd rfl others

end Warehouse.RangeIndex
