import Warehouse.Proofs.RangeIndex.Flags

/-! # Contracts of operations

`Ensures` says what an operation brings about from a moment on. While it holds no lock, other
operations may run before each of its requests; what they do is an `Evolves`, and in return
the operation only does such things itself between two moments without locks. An operation
that runs alone must not fail; one that does not may, since it can be overtaken. The rules
below follow the tree of requests, so that the contract of an operation is put together from
those of its parts. -/

namespace Warehouse.RangeIndex

/-- The contents of the metapage. -/
def Image.contents (image : Image) : Metapage :=
  match image.page? metaBlock with
  | none => .new 0 false
  | some page =>
      match Metapage.read page "" metaBlock with
      | .ok contents => contents
      | .error _ => .new 0 false

theorem Image.contents_eq {image : Image} {contents : Metapage} (h : image.Holds contents) :
    image.contents = contents := by
  obtain ⟨page, at', holds⟩ := h
  simp only [Image.contents, at', holds "" metaBlock]

/-- Every run keeps the index sound for what its metapage holds by then. -/
theorem Evolves.sound_contents {mode : Mode} {scene after : Scene} (evolves : Evolves mode scene after)
    (sound : Sound scene.image scene.image.contents) : Sound after.image after.image.contents := by
  obtain ⟨contents, sound', -⟩ := evolves.sound sound
  rwa [Image.contents_eq sound'.holds]

/-- What an operation sees and has: the scene at the last moment without locks, the scene now,
the accessor, and the pages that it has locked. -/
structure Moment where
  base : Scene
  scene : Scene
  accessor : Accessor
  held : List BlockNumber

namespace Moment

/-- The moment with another image. -/
def withImage (moment : Moment) (image : Image) : Moment :=
  { moment with scene := ⟨image, moment.scene.log⟩ }

/-- The contents of the metapage. -/
def contents (moment : Moment) : Metapage := moment.scene.image.contents

end Moment

/-! ## What others do -/

/-- A change can be made wherever the pages are the same and its tuple can be stored. -/
theorem Change.transport {mode mode' : Mode} {scene : Scene} {log : Option Journal}
    (sites : ∀ block page fresh, Site mode scene block page fresh → Site mode' ⟨scene.image, log⟩ block page fresh)
    (denser : mode'.Dense → mode.Dense) {contents contents' : Metapage} {record : Log.Record}
    {pages : List (BlockNumber × Page)} (change : Change mode scene contents record pages contents') :
    Change mode' ⟨scene.image, log⟩ contents record pages contents' := by
  cases change with
  | extendPlain plain next at_block free at_meta => exact .extendPlain plain next at_block free at_meta
  | extendChain chained bound beyond dense free at_meta tail =>
      exact .extendChain chained bound beyond (fun dense' => dense (denser dense')) free at_meta tail
  | insert start decoded covered site added stored valid at_map unbound =>
      exact .insert start decoded covered (sites _ _ _ site) added stored valid at_map unbound
  | update start decoded covered at_old regular removed deleted ne site added stored valid at_map bound valid_old =>
      exact .update start decoded covered at_old regular removed deleted ne (sites _ _ _ site) added stored valid at_map
        bound valid_old
  | desummarize start covered at_block regular removed deleted at_map bound valid =>
      exact .desummarize start covered at_block regular removed deleted at_map bound valid

/-- What is permitted does not depend on the rights that an operation has beyond those it needs. -/
theorem Change.loosen {mode mode' : Mode} (alone : mode' = .solo → mode = .solo)
    (denser : mode'.Dense → mode.Dense) {scene : Scene}
    {contents contents' : Metapage} {record : Log.Record} {pages : List (BlockNumber × Page)}
    (change : Change mode scene contents record pages contents') :
    Change mode' scene contents record pages contents' :=
  change.transport (fun _ _ _ site =>
    ⟨site.at_block, site.regular, site.takes, site.fresh_eq, fun solo => site.grounded (alone solo)⟩) denser

namespace Mode

/-- What all operations together may do that run at the same time. -/
def together : Mode → Mode
  | .solo => .solo
  | .shared _ gaps => .shared .all gaps

/-- What others may have done to a scene. -/
def Interferes : Mode → Scene → Scene → Prop
  | .solo, before, after => after = before
  | .shared _ gaps, before, after => Evolves (.shared .all gaps) before after

variable {mode : Mode} {first second third : Scene}

theorem together_eq_solo (h : mode.together = .solo) : mode = .solo := by
  cases mode with
  | solo => rfl
  | shared rights => cases h

theorem dense_together : mode.together.Dense ↔ mode.Dense := by
  cases mode <;> exact Iff.rfl

theorem Interferes.refl (mode : Mode) (scene : Scene) : mode.Interferes scene scene := by
  cases mode with
  | solo => exact Eq.refl scene
  | shared rights => exact Relation.ReflTransGen.refl

theorem Interferes.trans (h : mode.Interferes first second) (h' : mode.Interferes second third) :
    mode.Interferes first third := by
  cases mode with
  | solo => exact Eq.trans h' h
  | shared rights => exact Relation.ReflTransGen.trans h h'

theorem Interferes.evolves (h : mode.Interferes first second) : Evolves mode.together first second := by
  cases mode with
  | solo =>
      obtain rfl : second = first := h
      exact .refl
  | shared rights => exact h

end Mode

/-- What one of several operations does is something that they do together. -/
theorem Advance.together {mode : Mode} {scene after : Scene} (advance : Advance mode scene after) :
    Advance mode.together scene after := by
  cases advance with
  | grow room => exact .grow room
  | format first at_block => exact .format first at_block
  | flag at_block regular => exact .flag at_block regular
  | commit sound change permitted =>
      refine .commit sound (change.loosen Mode.together_eq_solo Mode.dense_together.mp) ?_
      cases mode with
      | solo => exact trivial
      | shared rights => exact fun _ _ _ => .inl trivial

theorem Evolves.together {mode : Mode} {scene after : Scene} (evolves : Evolves mode scene after) :
    Evolves mode.together scene after :=
  Relation.ReflTransGen.mono (fun _ _ => Advance.together) _ _ evolves

/-! ## What an accessor knows -/

/-- What an accessor knows about a chain. -/
def Accessor.chainOf (accessor : Accessor) (sequence : Nat) : Chain :=
  accessor.chains[sequence]?.getD .empty

/-- Every number up to the last one is the number of a page of the chain. -/
def Gapless (image : Image) (contents : Metapage) : Prop :=
  ∀ sequence < sequenceCount, ∀ number : UInt32, number ≠ 0 →
    number ≤ (contents.chain sequence).lastLogical → ∃ block, InChain image contents sequence block number

theorem Gapless.of_grows {image after : Image} {contents contents' : Metapage}
    (gapless : Gapless image contents) (grows : Grows image contents after contents')
    (last : ∀ sequence, (contents'.chain sequence).lastLogical = (contents.chain sequence).lastLogical) :
    Gapless after contents' := by
  intro sequence bound number ne le
  rw [last] at le
  obtain ⟨block, inside⟩ := gapless sequence bound number ne le
  exact ⟨block, grows.inChain bound inside⟩

/-- Where nobody leaves gaps, chains are extended by the next number only. -/
theorem Change.gapless {mode : Mode} {scene : Scene} {contents contents' : Metapage} {record : Log.Record}
    {pages : List (BlockNumber × Page)} (sound : Sound scene.image contents)
    (gapless : Gapless scene.image contents) (change : Change mode scene contents record pages contents')
    (dense : mode.Dense) :
    Gapless (scene.commit record pages).image contents' := by
  have grows := (change.effect sound).grows
  have nodup := change.nodup sound
  cases change with
  | extendPlain => exact gapless.of_grows grows fun _ => rfl
  | insert => exact gapless.of_grows grows fun _ => rfl
  | update => exact gapless.of_grows grows fun _ => rfl
  | desummarize => exact gapless.of_grows grows fun _ => rfl
  | extendChain chained bound beyond follows free at_meta tail =>
      rename_i sequence block number metapage linked
      obtain ⟨-, _, _, growth⟩ :=
        effect_extendChain sound chained bound beyond free at_meta tail rfl rfl nodup rfl
      intro other inside number' ne le
      by_cases eq : other = sequence
      · subst eq
        rw [growth.chain_same] at le
        by_cases new : number' = number
        · exact ⟨block, (growth.inChain_iff sound.shape inside).mpr (.inr ⟨rfl, rfl, new⟩)⟩
        · have next := follows dense
          have le : number'.toNat ≤ number.toNat := UInt32.le_iff_toNat_le.mp le
          have lt : number'.toNat ≠ number.toNat := fun h => new (UInt32.toNat_inj.mp h)
          obtain ⟨member, old⟩ := gapless other inside number' ne (UInt32.le_iff_toNat_le.mpr (by omega))
          exact ⟨member, grows.inChain inside old⟩
      · rw [growth.chain_other eq] at le
        obtain ⟨member, old⟩ := gapless other inside number' ne le
        exact ⟨member, grows.inChain inside old⟩

theorem Advance.gapless {mode : Mode} {scene after : Scene} (advance : Advance mode scene after)
    (sound : Sound scene.image scene.image.contents) (gapless : Gapless scene.image scene.image.contents)
    (dense : mode.Dense) : Gapless after.image after.image.contents := by
  have quiet_gapless : ∀ {image : Image}, Quiet scene.image image → Gapless image image.contents := by
    intro image quiet
    rw [Image.contents_eq (quiet.sound sound).holds]
    exact gapless.of_grows (.of_sameMap quiet.map quiet.size_le) fun _ => rfl
  cases advance with
  | grow room => exact quiet_gapless (sound.shape.quiet_grow room)
  | format first at_block => exact quiet_gapless (sound.shape.quiet_format first at_block)
  | flag at_block regular => exact quiet_gapless (sound.shape.quiet_flag at_block regular)
  | commit sound' change =>
      obtain rfl := sound.holds.unique sound'.holds
      have after := change.gapless sound gapless dense
      rwa [Image.contents_eq (change.effect sound).sound.holds]

theorem Evolves.gapless {mode : Mode} {scene after : Scene} (evolves : Evolves mode scene after)
    (sound : Sound scene.image scene.image.contents) (gapless : Gapless scene.image scene.image.contents)
    (dense : mode.Dense) : Gapless after.image after.image.contents := by
  induction evolves with
  | refl => exact gapless
  | tail evolves step ih =>
      exact step.gapless (Evolves.sound_contents evolves sound) ih dense

/-! ## Steps that bind nothing -/

/-- The bindings are the same before and after. -/
def Neutral (scene after : Scene) : Prop :=
  ∀ heapBlock payload, Binds after.image after.image.contents heapBlock payload ↔
    Binds scene.image scene.image.contents heapBlock payload

/-- What an operation does on the way to its own change: alone it changes no binding. -/
def Drift (mode : Mode) : Scene → Scene → Prop :=
  Relation.ReflTransGen fun scene after =>
    Advance mode.together scene after ∧ (mode = .solo → Neutral scene after)

namespace Drift

variable {mode : Mode} {first second third : Scene}

theorem refl (mode : Mode) (scene : Scene) : Drift mode scene scene := Relation.ReflTransGen.refl

theorem trans (h : Drift mode first second) (h' : Drift mode second third) : Drift mode first third :=
  Relation.ReflTransGen.trans h h'

theorem single (h : Advance mode first second) (neutral : mode = .solo → Neutral first second) :
    Drift mode first second :=
  Relation.ReflTransGen.single ⟨h.together, neutral⟩

theorem evolves (h : Drift mode first second) : Evolves mode.together first second := by
  induction h with
  | refl => exact .refl
  | tail _ step ih => exact ih.tail step.1

theorem of_interferes (h : mode.Interferes first second) : Drift mode first second := by
  cases mode with
  | solo =>
      obtain rfl : second = first := h
      exact refl _ _
  | shared rights gaps =>
      change Evolves (.shared .all gaps) first second at h
      induction h with
      | refl => exact refl _ _
      | tail _ step ih =>
          exact Relation.ReflTransGen.tail ih ⟨step, fun solo => absurd solo (Mode.shared_ne_solo rights)⟩

theorem neutral (h : Drift .solo first second) : Neutral first second := by
  induction h with
  | refl => exact fun _ _ => Iff.rfl
  | tail _ step ih => exact fun heapBlock payload => (step.2 rfl heapBlock payload).trans (ih heapBlock payload)

end Drift

theorem Quiet.neutral {image after : Image} {log log' : Option Journal}
    (quiet : Quiet image after) (sound : Sound image image.contents) : Neutral ⟨image, log⟩ ⟨after, log'⟩ := by
  intro heapBlock payload
  simp only
  rw [Image.contents_eq (quiet.sound sound).holds]
  exact quiet.binds sound

/-- A change that rebinds nothing, or the range to what it had, is neutral. -/
theorem Change.neutral {mode : Mode} {scene : Scene} {contents' : Metapage} {record : Log.Record}
    {pages : List (BlockNumber × Page)} (sound : Sound scene.image scene.image.contents)
    (change : Change mode scene scene.image.contents record pages contents')
    (same : ∀ heapBlock new, record.rebinds = some (heapBlock, new) → ∀ payload, new = some payload ↔
      Binds scene.image scene.image.contents heapBlock payload) :
    Neutral scene (scene.commit record pages) := by
  have effect := change.effect sound
  intro heapBlock payload
  rw [Image.contents_eq effect.sound.holds, effect.binds]
  cases rebinds : record.rebinds with
  | none => rfl
  | some entry =>
      obtain ⟨changed, new⟩ := entry
      simp only [Rebound]
      split
      · rename_i eq
        rw [same changed new rebinds, eq]
      · rfl

/-- A change that binds a range to a payload leaves it bound to it. -/
theorem Change.binds {mode : Mode} {scene : Scene} {contents contents' : Metapage} {record : Log.Record}
    {pages : List (BlockNumber × Page)} {heapBlock : BlockNumber} {payload : List UInt8}
    (sound : Sound scene.image contents) (change : Change mode scene contents record pages contents')
    (rebinds : record.rebinds = some (heapBlock, some payload)) :
    Binds (scene.commit record pages).image (scene.commit record pages).image.contents heapBlock payload := by
  have effect := change.effect sound
  rw [Image.contents_eq effect.sound.holds, effect.binds, rebinds]
  exact (if_pos rfl).mpr rfl

/-- A change of no binding is permitted to everybody. -/
theorem Mode.permits_of_none {mode : Mode} {scene : Scene} {contents : Metapage} {record : Log.Record}
    (none : record.rebinds = none) : mode.Permits scene contents record := by
  cases mode with
  | solo => exact trivial
  | shared rights => exact fun _ _ eq => nomatch none.symm.trans eq

/-! ## Accessors -/

/-- All that an accessor has in its cache was true once. -/
structure Knows (image : Image) (contents : Metapage) (accessor : Accessor) : Prop where
  addressing_eq : accessor.addressing = contents.addressing
  last_le : accessor.lastMapPage ≤ contents.lastMapPage
  chain : contents.appendOnly = true → ∀ sequence < sequenceCount, accessor.chainOf sequence = .empty ∨
    (contents.chain sequence).first = (accessor.chainOf sequence).first ∧
      (contents.chain sequence).first ≠ invalidBlock ∧
      InChain image contents sequence (accessor.chainOf sequence).last (accessor.chainOf sequence).lastLogical
  position : contents.appendOnly = true → ∀ sequence, accessor.position.sequence = some sequence →
    accessor.position.logical ≠ 0 → sequence < sequenceCount ∧
      InChain image contents sequence accessor.position.page accessor.position.logical
  running : accessor.cancelled = false

theorem Knows.grow {image after : Image} {contents contents' : Metapage} {accessor : Accessor}
    (knows : Knows image contents accessor) (grows : Grows image contents after contents') :
    Knows after contents' accessor where
  addressing_eq := knows.addressing_eq.trans grows.addressing_eq.symm
  last_le := UInt32.le_trans knows.last_le grows.last_le
  chain chained sequence bound := by
    have kind : contents.appendOnly = true :=
      (congrArg Addressing.appendOnly grows.addressing_eq).symm.trans chained
    rcases knows.chain kind sequence bound with empty | ⟨first, ne, last⟩
    · exact .inl empty
    · have same := grows.first_eq sequence ne
      exact .inr ⟨same.trans first, by rwa [same], grows.inChain bound last⟩
  position chained sequence eq ne := by
    have kind : contents.appendOnly = true :=
      (congrArg Addressing.appendOnly grows.addressing_eq).symm.trans chained
    obtain ⟨bound, inside⟩ := knows.position kind sequence eq ne
    exact ⟨bound, grows.inChain bound inside⟩
  running := knows.running

/-- An accessor of an append-only table finds the pages of a chain: it knows where the chain begins, and
has not stopped before its first page. -/
def Accessor.Sees (accessor : Accessor) (sequence : Nat) : Prop :=
  accessor.chainOf sequence ≠ .empty ∧ (accessor.position.sequence = some sequence → accessor.position.logical ≠ 0)

/-- The accessor knows where the chain of its position begins. -/
def Accessor.Anchored (accessor : Accessor) : Prop :=
  ∀ sequence, accessor.position.sequence = some sequence → accessor.position.logical ≠ 0 →
    accessor.chainOf sequence ≠ .empty

/-- An accessor that takes the place of another one finds what that one found. -/
structure Accessor.Keeps (accessor after : Accessor) : Prop where
  last_le : accessor.lastMapPage ≤ after.lastMapPage
  sees : ∀ sequence, accessor.Sees sequence → after.Sees sequence
  anchored : accessor.Anchored → after.Anchored

namespace Accessor

variable {accessor middle after : Accessor}

theorem Keeps.refl (accessor : Accessor) : accessor.Keeps accessor := ⟨UInt32.le_refl _, fun _ => id, id⟩

theorem Keeps.trans (keeps : accessor.Keeps middle) (keeps' : middle.Keeps after) : accessor.Keeps after :=
  ⟨UInt32.le_trans keeps.last_le keeps'.last_le, fun sequence => keeps'.sees sequence ∘ keeps.sees sequence,
    keeps'.anchored ∘ keeps.anchored⟩

theorem keeps_current (accessor : Accessor) (current : Option BlockNumber) : accessor.Keeps { accessor with current } :=
  ⟨UInt32.le_refl _, fun _ => id, id⟩

theorem keeps_last {last : BlockNumber} (le : accessor.lastMapPage ≤ last) :
    accessor.Keeps { accessor with lastMapPage := last } :=
  ⟨le, fun _ => id, id⟩

/-- Opening the index takes nothing away, since nothing was known. -/
theorem keeps_opened (index : String) (contents : Metapage) : unopened.Keeps (ofMetapage index contents) where
  last_le := UInt32.zero_le
  sees sequence seen := by
    have empty : unopened.chainOf sequence = .empty := by
      simp only [chainOf, unopened, ofMetapage, Metapage.new, Vector.getElem?_replicate]
      split <;> rfl
    exact absurd empty seen.1
  anchored _ _ eq := nomatch eq

end Accessor

/-! ## Moments between changes -/

/-- The index is sound, the accessor knows nothing wrong, and what was done since the last
moment without locks is something that operations do. -/
structure Steady (mode : Mode) (moment : Moment) : Prop where
  sound : Sound moment.scene.image moment.contents
  knows : Knows moment.scene.image moment.contents moment.accessor
  gapless : mode.Dense → Gapless moment.scene.image moment.contents
  evolves : Evolves mode moment.base moment.scene

/-! ## Contracts -/

/-- Among others an operation may fail, since it can be overtaken. What it did before it fails
is something that operations do, and its accessor still knows nothing wrong. -/
def Moment.MayFail (mode : Mode) (moment : Moment) : Prop := mode ≠ .solo ∧ Steady mode moment

/-- The outcome of reading a page under a lock. -/
def Moment.Locks (mode : Mode) (moment : Moment) (block : BlockNumber) (next : Page → Prop) : Prop :=
  if moment.held.contains block then moment.MayFail mode
  else
    match moment.scene.image.page? block with
    | none => moment.MayFail mode
    | some page => next page

/-- The pages are as the record says, but it has yet to be written to the log. -/
inductive Moment.Drafts (mode : Mode) (moment : Moment) : Log.Record → Prop
  | create {pagesPerRange : UInt32} {appendOnly : Bool} (blank : moment.base.image.page? metaBlock = some .zero) :
      Drafts mode moment (.createIndex pagesPerRange appendOnly)
  | change {scene : Scene} {contents contents' : Metapage} {record : Log.Record} {pages : List (BlockNumber × Page)}
      (evolves : Evolves mode moment.base scene) (sound : Sound scene.image contents)
      (change : Change mode scene contents record pages contents')
      (written : moment.scene = ⟨scene.image.putAll pages, scene.log⟩) : Drafts mode moment record

/-- What a request brings about. -/
def Moment.Serves (mode : Mode) (moment : Moment) :
    (request : Request) → (request.Answer → Moment → Prop) → Prop
  | .poll, next => (mode ≠ .solo → Steady mode moment) ∧
      if moment.accessor.cancelled then moment.MayFail mode else next () moment
  | .accessor, next => next moment.accessor moment
  | .remember accessor, next => (mode = .solo → moment.accessor.Keeps accessor) ∧ next () { moment with accessor }
  | .countBlocks, next => next (UInt32.ofNat moment.scene.image.size) moment
  | .pin block, next =>
      match moment.scene.image.page? block with
      | none => moment.MayFail mode
      | some _ => next () moment
  | .allocate, next => ∀ extra, (mode = .solo → moment.scene.Reserved → extra = 0) →
      moment.scene.image.size + extra + 1 < 2 ^ 32 →
        next (UInt32.ofNat (moment.scene.image.size + extra))
          (moment.withImage (moment.scene.image.growBy (extra + 1)))
  | .view block, next => moment.Locks mode block fun page => next page moment
  | .acquire block, next =>
      moment.Locks mode block fun page => next page { moment with held := block :: moment.held }
  | .write block page, next => next () (moment.withImage (moment.scene.image.put block page))
  | .markDirty _, next => next () moment
  | .release block, next => next () { moment with held := moment.held.erase block }
  | .releaseAll, next => next () { moment with held := [] }
  | .append record, next => moment.Drafts mode record ∧
      match moment.scene.log with
      | none => next none moment
      | some journal =>
          next (some (journal.position record))
            { moment with scene := ⟨moment.scene.image, some (journal.push record)⟩ }

/-- What an operation brings about. -/
def Ensures (mode : Mode) {α : Type} (post : α → Moment → Prop) : Procedure α → Moment → Prop
  | .done value, moment => post value moment
  | .fail _, moment => moment.MayFail mode
  | .ask request next, moment =>
      if moment.held = [] then
        Evolves mode moment.base moment.scene ∧ ∀ scene, mode.Interferes moment.scene scene →
          Moment.Serves mode { moment with base := scene, scene } request fun answer moment =>
            Ensures mode post (next answer) moment
      else Moment.Serves mode moment request fun answer moment => Ensures mode post (next answer) moment

section Rules

variable {α β : Type} {mode : Mode} {moment : Moment} {post post' : α → Moment → Prop}

theorem Moment.Locks.mono {block : BlockNumber} {next next' : Page → Prop} (h : moment.Locks mode block next)
    (imp : ∀ page, next page → next' page) : moment.Locks mode block next' := by
  rw [Locks] at h ⊢
  by_cases held : moment.held.contains block = true
  · rw [if_pos held] at h ⊢
    exact h
  · rw [if_neg held] at h ⊢
    cases at' : moment.scene.image.page? block with
    | none =>
        rw [at'] at h
        exact h
    | some page =>
        rw [at'] at h
        exact imp page h

theorem Moment.Serves.mono {request : Request} {next next' : request.Answer → Moment → Prop}
    (h : moment.Serves mode request next) (imp : ∀ answer moment, next answer moment → next' answer moment) :
    moment.Serves mode request next' := by
  cases request with
  | poll =>
      rw [Serves] at h ⊢
      refine ⟨h.1, ?_⟩
      by_cases cancelled : moment.accessor.cancelled = true
      · rw [if_pos cancelled] at h ⊢
        exact h.2
      · rw [if_neg cancelled] at h ⊢
        exact imp _ _ h.2
  | accessor => exact imp _ _ h
  | remember => exact ⟨h.1, imp _ _ h.2⟩
  | countBlocks => exact imp _ _ h
  | pin block =>
      simp only [Serves] at h ⊢
      split at h
      · exact h
      · exact imp _ _ h
  | allocate => exact fun extra alone room => imp _ _ (h extra alone room)
  | view block => exact Moment.Locks.mono h fun page => imp page _
  | acquire block => exact Moment.Locks.mono h fun page => imp page _
  | write => exact imp _ _ h
  | markDirty => exact imp _ _ h
  | release => exact imp _ _ h
  | releaseAll => exact imp _ _ h
  | append record =>
      simp only [Serves] at h ⊢
      refine ⟨h.1, ?_⟩
      have served := h.2
      split at served
      · exact imp _ _ served
      · exact imp _ _ served

/-- An operation followed by another one. -/
theorem Ensures.bind {procedure : Procedure α} {rest : α → Procedure β} {post : β → Moment → Prop}
    (h : Ensures mode (fun value moment => Ensures mode post (rest value) moment) procedure moment) :
    Ensures mode post (procedure >>= rest) moment := by
  change Ensures mode post (procedure.bind rest) moment
  induction procedure generalizing moment with
  | done value => exact h
  | fail failure => exact h
  | ask request next ih =>
      simp only [Procedure.bind, Ensures] at h ⊢
      by_cases held : moment.held = []
      · rw [if_pos held] at h ⊢
        exact ⟨h.1, fun scene interferes => (h.2 scene interferes).mono fun answer _ => ih answer⟩
      · rw [if_neg held] at h ⊢
        exact h.mono fun answer _ => ih answer

/-- What an accessor finds before a request that is made alone, it finds after it. -/
theorem Moment.Serves.keeping {request : Request} {next : request.Answer → Moment → Prop} {before : Accessor}
    (h : moment.Serves mode request next) (keeps : mode = .solo → before.Keeps moment.accessor) :
    moment.Serves mode request fun answer later =>
      next answer later ∧ (mode = .solo → before.Keeps later.accessor) := by
  cases request with
  | poll =>
      rw [Serves] at h ⊢
      refine ⟨h.1, ?_⟩
      by_cases cancelled : moment.accessor.cancelled = true
      · rw [if_pos cancelled] at h ⊢
        exact h.2
      · rw [if_neg cancelled] at h ⊢
        exact ⟨h.2, keeps⟩
  | remember accessor => exact ⟨h.1, h.2, fun solo => (keeps solo).trans (h.1 solo)⟩
  | pin block =>
      simp only [Serves] at h ⊢
      split at h
      · exact h
      · exact ⟨h, keeps⟩
  | allocate => exact fun extra alone room => ⟨h extra alone room, keeps⟩
  | view block => exact Moment.Locks.mono h fun page served => ⟨served, keeps⟩
  | acquire block => exact Moment.Locks.mono h fun page served => ⟨served, keeps⟩
  | append record =>
      simp only [Serves] at h ⊢
      refine ⟨h.1, ?_⟩
      have served := h.2
      split at served
      · exact ⟨served, keeps⟩
      · exact ⟨served, keeps⟩
  | _ => exact ⟨h, keeps⟩

/-- What an accessor finds before an operation that runs alone, it finds after it. -/
theorem Ensures.keeping {procedure : Procedure α} {before : Accessor} (h : Ensures mode post procedure moment)
    (keeps : mode = .solo → before.Keeps moment.accessor) :
    Ensures mode (fun value later => post value later ∧ (mode = .solo → before.Keeps later.accessor)) procedure
      moment := by
  induction procedure generalizing moment with
  | done value => exact ⟨h, keeps⟩
  | fail failure => exact h
  | ask request next ih =>
      simp only [Ensures] at h ⊢
      by_cases held : moment.held = []
      · rw [if_pos held] at h ⊢
        refine ⟨h.1, fun scene interferes => ?_⟩
        exact ((h.2 scene interferes).keeping keeps).mono fun answer _ served => ih answer served.1 served.2
      · rw [if_neg held] at h ⊢
        exact (h.keeping keeps).mono fun answer _ served => ih answer served.1 served.2

theorem Ensures.mono {procedure : Procedure α} (h : Ensures mode post procedure moment)
    (imp : ∀ value moment, post value moment → post' value moment) :
    Ensures mode post' procedure moment := by
  induction procedure generalizing moment with
  | done value => exact imp _ _ h
  | fail failure => exact h
  | ask request next ih =>
      simp only [Ensures] at h ⊢
      by_cases held : moment.held = []
      · rw [if_pos held] at h ⊢
        exact ⟨h.1, fun scene interferes => (h.2 scene interferes).mono fun answer _ => ih answer⟩
      · rw [if_neg held] at h ⊢
        exact h.mono fun answer _ => ih answer

/-- An operation whose contract is known, followed by another one. -/
theorem Ensures.andThen {procedure : Procedure α} {rest : α → Procedure β} {post' : β → Moment → Prop}
    (h : Ensures mode post procedure moment)
    (next : ∀ value moment, post value moment → Ensures mode post' (rest value) moment) :
    Ensures mode post' (procedure >>= rest) moment :=
  Ensures.bind (h.mono next)

@[simp]
theorem ensures_pure {value : α} : Ensures mode post (pure value) moment ↔ post value moment := Iff.rfl

@[simp]
theorem ensures_fail {failure : Failure} : Ensures mode post (.fail failure) moment ↔ moment.MayFail mode := Iff.rfl

@[simp]
theorem ensures_report {cause : Error} : Ensures mode post (.report cause) moment ↔ moment.MayFail mode := Iff.rfl

@[simp]
theorem ensures_report_bind {cause : Error} {rest : β → Procedure α} :
    Ensures mode post (Procedure.report cause >>= rest) moment ↔ moment.MayFail mode := Iff.rfl

@[simp]
theorem ensures_lift_ok {value : β} {rest : β → Procedure α} :
    Ensures mode post ((liftM (Except.ok value : Except Fault β) : Procedure β) >>= rest) moment ↔
      Ensures mode post (rest value) moment := Iff.rfl

@[simp]
theorem ensures_lift_value {value : β} {rest : β → Procedure α} :
    Ensures mode post ((liftM (Except.ok value : Except Error β) : Procedure β) >>= rest) moment ↔
      Ensures mode post (rest value) moment := Iff.rfl

/-- A request under a lock. -/
theorem Ensures.locked {request : Request} {rest : request.Answer → Procedure α} (held : moment.held ≠ [])
    (h : moment.Serves mode request fun answer moment => Ensures mode post (rest answer) moment) :
    Ensures mode post (Procedure.request request >>= rest) moment := by
  change Ensures mode post (.ask request rest) moment
  rw [Ensures, if_neg held]
  exact h

/-- A request without a lock. -/
theorem Ensures.unlocked {request : Request} {rest : request.Answer → Procedure α} (held : moment.held = [])
    (evolves : Evolves mode moment.base moment.scene)
    (h : ∀ scene, mode.Interferes moment.scene scene →
      Moment.Serves mode { moment with base := scene, scene } request fun answer moment =>
        Ensures mode post (rest answer) moment) :
    Ensures mode post (Procedure.request request >>= rest) moment := by
  change Ensures mode post (.ask request rest) moment
  rw [Ensures, if_pos held]
  exact ⟨evolves, h⟩

end Rules

/-- The range map of the later moment reaches at least as far. -/
def Moment.Grows (moment later : Moment) : Prop :=
  RangeIndex.Grows moment.scene.image moment.contents later.scene.image later.contents

/-- An operation only looked at pages between the two moments. -/
structure Waits (mode : Mode) (moment later : Moment) : Prop where
  held_eq : later.held = moment.held
  locked : moment.held ≠ [] → later.scene = moment.scene ∧ later.base = moment.base
  free : moment.held = [] → mode.Interferes moment.scene later.scene

namespace Waits

variable {mode : Mode} {moment later last : Moment}

theorem refl (mode : Mode) (moment : Moment) : Waits mode moment moment :=
  ⟨rfl, fun _ => ⟨rfl, rfl⟩, fun _ => .refl _ _⟩

theorem trans (h : Waits mode moment later) (h' : Waits mode later last) : Waits mode moment last where
  held_eq := h'.held_eq.trans h.held_eq
  locked held := by
    obtain ⟨scene, base⟩ := h.locked held
    obtain ⟨scene', base'⟩ := h'.locked (by rwa [h.held_eq])
    exact ⟨scene'.trans scene, base'.trans base⟩
  free held := (h.free held).trans (h'.free (by rw [h.held_eq, held]))

theorem interferes (h : Waits mode moment later) : mode.Interferes moment.scene later.scene := by
  by_cases held : moment.held = []
  · exact h.free held
  · rw [(h.locked held).1]
    exact .refl _ _

theorem scene_eq_of_solo (h : Waits .solo moment later) : later.scene = moment.scene := h.interferes

theorem accessor_free (h : Waits mode moment later) (accessor : Accessor) :
    Waits mode moment { later with accessor } :=
  ⟨h.held_eq, h.locked, h.free⟩

end Waits

namespace Steady

variable {mode : Mode} {moment later : Moment} {α : Type} {post : α → Moment → Prop}

theorem contents_of_sound {image : Image} {contents : Metapage} (sound : Sound image contents) :
    image.contents = contents :=
  Image.contents_eq sound.holds

/-- In time the range map only grows. -/
theorem grows_of_evolves (steady : Steady mode moment) {scene : Scene} {mode' : Mode}
    (evolves : Evolves mode' moment.scene scene) :
    Sound scene.image scene.image.contents ∧
      RangeIndex.Grows moment.scene.image moment.contents scene.image scene.image.contents := by
  obtain ⟨contents, sound, grows⟩ := evolves.sound steady.sound
  obtain rfl := contents_of_sound sound
  exact ⟨sound, grows⟩

theorem grows (steady : Steady mode moment) (waits : Waits mode moment later) : moment.Grows later :=
  (steady.grows_of_evolves waits.interferes.evolves).2

/-- What others do leaves the moment steady. -/
theorem interfere (steady : Steady mode moment) {scene : Scene} (h : mode.Interferes moment.scene scene) :
    Steady mode { moment with base := scene, scene } := by
  obtain ⟨sound, grows⟩ := steady.grows_of_evolves h.evolves
  exact ⟨sound, steady.knows.grow grows, fun dense =>
    h.evolves.gapless steady.sound (steady.gapless dense) (Mode.dense_together.mpr dense), .refl⟩

/-- A request at a steady moment. -/
theorem request (steady : Steady mode moment) {request : Request} {rest : request.Answer → Procedure α}
    (h : ∀ later, Waits mode moment later → Steady mode later → later.accessor = moment.accessor →
      later.Serves mode request fun answer moment => Ensures mode post (rest answer) moment) :
    Ensures mode post (Procedure.request request >>= rest) moment := by
  by_cases held : moment.held = []
  · refine Ensures.unlocked held steady.evolves fun scene interferes => ?_
    exact h _ ⟨rfl, fun ne => absurd held ne, fun _ => interferes⟩ (steady.interfere interferes) rfl
  · exact Ensures.locked held (h moment (.refl _ _) steady rfl)

theorem accessor (steady : Steady mode moment) {rest : Accessor → Procedure α}
    (h : ∀ later, Waits mode moment later → Steady mode later → later.accessor = moment.accessor →
      Ensures mode post (rest moment.accessor) later) :
    Ensures mode post (Procedure.accessor >>= rest) moment :=
  steady.request fun later waits steady' eq => by
    have := h later waits steady' eq
    rwa [← eq] at this

theorem remember (steady : Steady mode moment) {accessor : Accessor} {rest : Unit → Procedure α}
    (keeps : mode = .solo → moment.accessor.Keeps accessor)
    (h : ∀ later, Waits mode moment later → Steady mode later → later.accessor = moment.accessor →
      Ensures mode post (rest ()) { later with accessor }) :
    Ensures mode post (Procedure.remember accessor >>= rest) moment :=
  steady.request fun later waits steady' eq => ⟨eq ▸ keeps, h later waits steady' eq⟩

theorem remember_last {post : Unit → Moment → Prop} (steady : Steady mode moment) {accessor : Accessor}
    (keeps : mode = .solo → moment.accessor.Keeps accessor)
    (h : ∀ later, Waits mode moment later → Steady mode later → later.accessor = moment.accessor →
      post () { later with accessor }) :
    Ensures mode post (Procedure.remember accessor) moment :=
  steady.remember keeps h

theorem poll (steady : Steady mode moment) {rest : Unit → Procedure α}
    (h : ∀ later, Waits mode moment later → Steady mode later → later.accessor = moment.accessor →
      Ensures mode post (rest ()) later) :
    Ensures mode post (Procedure.poll >>= rest) moment := by
  refine steady.request fun later waits steady' eq => ?_
  rw [Moment.Serves, if_neg (by rw [steady'.knows.running]; decide)]
  exact ⟨fun _ => steady', h later waits steady' eq⟩

theorem countBlocks (steady : Steady mode moment) {rest : BlockNumber → Procedure α}
    (h : ∀ later, Waits mode moment later → Steady mode later → later.accessor = moment.accessor →
      Ensures mode post (rest (UInt32.ofNat later.scene.image.size)) later) :
    Ensures mode post (Procedure.countBlocks >>= rest) moment :=
  steady.request h

theorem pin (steady : Steady mode moment) {block : BlockNumber} {rest : Unit → Procedure α}
    (present : mode = .solo → block.toNat < moment.scene.image.size)
    (h : ∀ later, Waits mode moment later → Steady mode later → later.accessor = moment.accessor →
      block.toNat < later.scene.image.size → Ensures mode post (rest ()) later) :
    Ensures mode post (Procedure.pin block >>= rest) moment := by
  refine steady.request fun later waits steady' eq => ?_
  rw [Moment.Serves]
  split
  · rename_i none
    cases mode with
    | shared rights => exact ⟨Mode.shared_ne_solo rights, steady'⟩
    | solo =>
        rw [waits.scene_eq_of_solo] at none
        have := Image.page?_eq_none.mp none
        have := present rfl
        omega
  · rename_i page at'
    exact h later waits steady' eq (Image.lt_of_page? at')

/-- Reading a page under a lock. -/
theorem view (steady : Steady mode moment) {block : BlockNumber} {rest : Page → Procedure α}
    (present : mode = .solo → block.toNat < moment.scene.image.size ∧ block ∉ moment.held)
    (h : ∀ later page, Waits mode moment later → Steady mode later → later.accessor = moment.accessor →
      later.scene.image.page? block = some page → Ensures mode post (rest page) later) :
    Ensures mode post (Procedure.view block >>= rest) moment := by
  refine steady.request fun later waits steady' eq => ?_
  rw [Moment.Serves, Moment.Locks]
  split
  · rename_i contained
    cases mode with
    | shared rights => exact ⟨Mode.shared_ne_solo rights, steady'⟩
    | solo =>
        rw [waits.held_eq] at contained
        exact absurd (List.contains_iff_mem.mp contained) (present rfl).2
  · split
    · rename_i none
      cases mode with
      | shared rights => exact ⟨Mode.shared_ne_solo rights, steady'⟩
      | solo =>
          rw [waits.scene_eq_of_solo] at none
          have := Image.page?_eq_none.mp none
          have := (present rfl).1
          omega
    · rename_i page at'
      exact h later page waits steady' eq at'

/-- Locking a page. -/
theorem acquire (steady : Steady mode moment) {block : BlockNumber} {rest : Page → Procedure α}
    (present : mode = .solo → block.toNat < moment.scene.image.size ∧ block ∉ moment.held)
    (h : ∀ later page, Waits mode moment later → Steady mode later → later.accessor = moment.accessor →
      later.scene.image.page? block = some page → block ∉ moment.held →
      Ensures mode post (rest page) { later with held := block :: later.held }) :
    Ensures mode post (Procedure.acquire block >>= rest) moment := by
  refine steady.request fun later waits steady' eq => ?_
  rw [Moment.Serves, Moment.Locks]
  split
  · rename_i contained
    cases mode with
    | shared rights => exact ⟨Mode.shared_ne_solo rights, steady'⟩
    | solo =>
        rw [waits.held_eq] at contained
        exact absurd (List.contains_iff_mem.mp contained) (present rfl).2
  · rename_i contained
    split
    · rename_i none
      cases mode with
      | shared rights => exact ⟨Mode.shared_ne_solo rights, steady'⟩
      | solo =>
          rw [waits.scene_eq_of_solo] at none
          have := Image.page?_eq_none.mp none
          have := (present rfl).1
          omega
    · rename_i page at'
      refine h later page waits steady' eq at' fun mem => contained ?_
      rw [waits.held_eq]
      exact List.contains_iff_mem.mpr mem

theorem releaseAll (steady : Steady mode moment) {rest : Unit → Procedure α}
    (h : ∀ later, Waits mode moment later → Steady mode later → later.accessor = moment.accessor →
      Ensures mode post (rest ()) { later with held := [] }) :
    Ensures mode post (Procedure.releaseAll >>= rest) moment :=
  steady.request h

/-- What an accessor gets to know while nothing else changes. -/
theorem learn (steady : Steady mode moment) {accessor : Accessor}
    (knows : Knows moment.scene.image moment.contents accessor) : Steady mode { moment with accessor } :=
  ⟨steady.sound, knows, steady.gapless, steady.evolves⟩

/-- Taking or giving back locks leaves a moment steady. -/
theorem lock (steady : Steady mode moment) (held : List BlockNumber) : Steady mode { moment with held } :=
  ⟨steady.sound, steady.knows, steady.gapless, steady.evolves⟩

/-- A step of the operation itself leaves the moment steady. -/
theorem advance (steady : Steady mode moment) {scene : Scene} (step : Advance mode moment.scene scene) :
    Steady mode { moment with scene } := by
  obtain ⟨sound, grows⟩ := steady.grows_of_evolves (.single step)
  exact ⟨sound, steady.knows.grow grows, fun dense => step.gapless steady.sound (steady.gapless dense) dense,
    steady.evolves.tail step⟩

end Steady

end Warehouse.RangeIndex
