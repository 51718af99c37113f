import Warehouse.Proofs.RangeIndex.Commits
import Warehouse.Proofs.RangeIndex.Lookup

/-! # Storing and moving summaries

A locked site is a regular page with room: the last page of the index or a new one. Moving a
summary commits one change, which binds the range to what is stored at the new place. Alone,
an operation always finds a site and a summary where the entry of its range points, so that
every move succeeds, and evacuating a page leaves it without summaries and all bindings as
they were. -/

namespace Warehouse.RangeIndex

/-- All pages are there later as they are now. -/
def Image.Keeps (image after : Image) : Prop :=
  ∀ block page, image.page? block = some page → after.page? block = some page

theorem Image.Keeps.refl (image : Image) : image.Keeps image := fun _ _ at' => at'

theorem Image.Keeps.trans {first second third : Image} (h : first.Keeps second) (h' : second.Keeps third) :
    first.Keeps third :=
  fun block page at' => h' block page (h block page at')

/-- Between the moments an operation may have added pages to the relation. Those that were
there are the same if nobody else could change them. -/
structure Adds (mode : Mode) (moment later : Moment) : Prop where
  drift : Drift mode moment.scene later.scene
  steady : Steady mode later
  accessor_eq : later.accessor = moment.accessor
  held : moment.held ≠ [] → later.held ≠ []
  kept : mode = .solo ∨ moment.held ≠ [] → moment.scene.image.Keeps later.scene.image

/-- A page was added to the relation, behind those that others may have added before it. -/
structure Appended (mode : Mode) (scene : Scene) (block : BlockNumber) (later : Moment) : Prop where
  drift : Drift mode scene later.scene
  steady : Steady mode later
  keeps : scene.image.Keeps later.scene.image
  behind : scene.image.size ≤ block.toNat
  blank : ∀ other : BlockNumber, scene.image.size ≤ other.toNat → other ≤ block →
    later.scene.image.page? other = some .zero
  loose : mode = .solo → ∀ other, later.scene.Loose other → scene.Loose other ∨ other = block
  /-- Others added pages only where the log need not know of them. -/
  crowded : mode = .solo → scene.image.size < block.toNat → ∀ other, ¬ later.scene.Loose other

/-- A site is locked that takes a tuple of the given length. -/
structure Sited (mode : Mode) (excluded : Option BlockNumber) (length : Nat) (moment : Moment)
    (site : Placement.Site) (later : Moment) : Prop where
  adds : Adds mode moment later
  good : Site mode later.scene site.block site.page site.fresh
  fits : site.page.fits length = true
  held_eq : later.held = site.block :: moment.held
  free : site.block ∉ moment.held
  loose : mode = .solo → ∀ block, later.scene.Loose block → moment.scene.Loose block ∨ block = site.block

section Steps

variable {mode : Mode} {moment later last : Moment} {image : Image} {block other : BlockNumber} {page : Page}

theorem Waits.scene_eq_of_alone (waits : Waits mode moment later) (alone : mode = .solo ∨ moment.held ≠ []) :
    later.scene = moment.scene := by
  rcases alone with rfl | ne
  · exact waits.scene_eq_of_solo
  · exact (waits.locked ne).1

theorem Adds.of_waits (waits : Waits mode moment later) (steady : Steady mode later)
    (eq : later.accessor = moment.accessor) : Adds mode moment later where
  drift := .of_interferes waits.interferes
  steady := steady
  accessor_eq := eq
  held ne := by rwa [waits.held_eq]
  kept alone := by
    rw [waits.scene_eq_of_alone alone]
    exact .refl _

theorem Adds.trans (h : Adds mode moment later) (h' : Adds mode later last) : Adds mode moment last where
  drift := h.drift.trans h'.drift
  steady := h'.steady
  accessor_eq := h'.accessor_eq.trans h.accessor_eq
  held ne := h'.held (h.held ne)
  kept alone := (h.kept alone).trans (h'.kept (alone.imp_right h.held))

theorem Moment.HoldsRegular.add (regular : moment.HoldsRegular) (adds : Adds mode moment later)
    (held_eq : later.held = moment.held) : later.HoldsRegular := by
  intro block mem
  rw [held_eq] at mem
  obtain ⟨page, at', regular⟩ := regular block mem
  exact ⟨page, adds.kept (.inr (List.ne_nil_of_mem mem)) block page at', regular⟩

theorem Sited.holdsRegular {excluded : Option BlockNumber} {length : Nat} {site : Placement.Site}
    (sited : Sited mode excluded length moment site later) (regular : moment.HoldsRegular) :
    later.HoldsRegular := by
  intro block mem
  rw [sited.held_eq] at mem
  rcases List.mem_cons.mp mem with rfl | mem
  · exact ⟨_, sited.good.at_block, sited.good.regular⟩
  · obtain ⟨page, at', regular⟩ := regular block mem
    exact ⟨page, sited.adds.kept (.inr (List.ne_nil_of_mem mem)) block page at', regular⟩

/-- What was locked on the way to a site does not matter. -/
theorem Sited.after {excluded : Option BlockNumber} {length : Nat} {site : Placement.Site}
    (h : Sited mode excluded length later site last) (adds : Adds mode moment later)
    (held_eq : later.held = moment.held) (loose : mode = .solo → ∀ block, later.scene.Loose block →
      moment.scene.Loose block) : Sited mode excluded length moment site last where
  adds := adds.trans h.adds
  good := h.good
  fits := h.fits
  held_eq := by rw [h.held_eq, held_eq]
  free := by rw [← held_eq]; exact h.free
  loose solo block looseLast := (h.loose solo block looseLast).imp_left (loose solo block)

/-- A step that logs nothing. -/
theorem Steady.quietly (steady : Steady mode moment)
    (step : Advance mode moment.scene ⟨image, moment.scene.log⟩) (quiet : Quiet moment.scene.image image) :
    Steady mode (moment.withImage image) ∧ Drift mode moment.scene (moment.withImage image).scene :=
  ⟨steady.advance step, .single step fun _ => quiet.neutral steady.sound⟩

theorem Scene.Loose.reserved {scene : Scene} (h : scene.Loose other) : scene.Reserved := by
  obtain ⟨journal, -, log, room, -⟩ := h
  exact .inr ⟨journal, log, room⟩

theorem Scene.Loose.of_growBy {scene : Scene} {count : Nat}
    (h : Scene.Loose ⟨scene.image.growBy count, scene.log⟩ other) :
    scene.Loose other ∨ scene.image.size ≤ other.toNat := by
  obtain ⟨journal, page', log, room, at', cause⟩ := h
  by_cases old : other.toNat < scene.image.size
  · rw [Image.page?_growBy_old count old] at at'
    exact .inl ⟨journal, page', log, room, at', cause⟩
  · exact .inr (Nat.not_lt.mp old)

/-- Pages of zeros are added one after the other. -/
theorem Steady.grow (steady : Steady mode moment) (count : Nat) (room : moment.scene.image.size + count < 2 ^ 32) :
    Steady mode (moment.withImage (moment.scene.image.growBy count)) ∧
      Drift mode moment.scene (moment.withImage (moment.scene.image.growBy count)).scene := by
  induction count with
  | zero => exact ⟨steady, .refl _ _⟩
  | succ count ih =>
      obtain ⟨steady', drift⟩ := ih (by omega)
      have room' : (moment.withImage (moment.scene.image.growBy count)).scene.image.size + 1 < 2 ^ 32 := by
        simp only [Moment.withImage, Image.size_growBy]
        omega
      obtain ⟨steady'', drift'⟩ := steady'.quietly (.grow room') (steady'.sound.shape.quiet_grow room')
      rw [Image.growBy_succ]
      exact ⟨steady'', drift.trans drift'⟩

/-- Adding a page. -/
theorem Steady.allocate {α : Type} {post : α → Moment → Prop} (steady : Steady mode moment)
    {rest : BlockNumber → Procedure α}
    (h : ∀ middle block later, Waits mode moment middle → middle.accessor = moment.accessor →
      Steady mode middle → Appended mode middle.scene block later → later.accessor = moment.accessor →
      later.held = middle.held → Ensures mode post (rest block) later) :
    Ensures mode post (Procedure.allocate >>= rest) moment := by
  refine steady.request fun middle waits steady' eq => ?_
  intro extra alone room
  obtain ⟨steady'', drift⟩ := steady'.grow (extra + 1) (by omega)
  have number : (UInt32.ofNat (middle.scene.image.size + extra)).toNat = middle.scene.image.size + extra :=
    UInt32.toNat_ofNat_of_lt' (by simp only [UInt32.size]; omega)
  have within : ∀ {other : BlockNumber}, other ≤ UInt32.ofNat (middle.scene.image.size + extra) →
      other.toNat < middle.scene.image.size + (extra + 1) := by
    intro other le
    have le := UInt32.le_iff_toNat_le.mp le
    rw [number] at le
    omega
  refine h middle _ _ waits eq steady' ⟨drift, steady'', fun other page at' => ?_, by rw [number]; omega,
    fun other behind le => Image.page?_growBy_new behind (within le), fun solo other loose => ?_,
    fun solo crowded other loose => ?_⟩ eq rfl
  · exact (Image.page?_growBy_old _ (Image.lt_of_page? at')).trans at'
  · refine (Scene.Loose.of_growBy loose).imp_right fun behind => ?_
    obtain ⟨journal, page, log, stop, at', -⟩ := loose
    have inside := Image.lt_of_page? at'
    simp only [Moment.withImage, Image.size_growBy] at inside
    have none := alone solo (.inr ⟨journal, log, stop⟩)
    exact UInt32.toNat_inj.mp (by rw [number]; omega)
  · obtain ⟨journal, -, log, stop, -⟩ := loose
    have none := alone solo (.inr ⟨journal, log, stop⟩)
    rw [number] at crowded
    omega

theorem Appended.at_block {scene : Scene} (added : Appended mode scene block later) :
    later.scene.image.page? block = some .zero :=
  added.blank block added.behind (UInt32.le_refl _)

theorem Appended.ne_meta {scene : Scene} (added : Appended mode scene block later)
    (sound : Sound scene.image scene.image.contents) : block ≠ metaBlock := by
  rintro rfl
  obtain ⟨metapage, at_meta, -⟩ := sound.shape.metapage
  exact absurd (Image.lt_of_page? at_meta) (Nat.not_lt.mpr added.behind)

theorem Appended.adds (added : Appended mode moment.scene block later) (accessor : later.accessor = moment.accessor)
    (held : later.held = moment.held) : Adds mode moment later :=
  ⟨added.drift, added.steady, accessor, fun ne => by rwa [held], fun _ => added.keeps⟩

theorem Scene.Loose.of_put {scene : Scene} (h : Scene.Loose ⟨scene.image.put block page, scene.log⟩ other) :
    scene.Loose other ∨ other = block := by
  by_cases eq : other = block
  · exact .inr eq
  · obtain ⟨journal, page', log, room, at', cause⟩ := h
    rw [Image.page?_put_other eq] at at'
    exact .inl ⟨journal, page', log, room, at', cause⟩

theorem fits_freshPage {length : Nat} (short : length ≤ maxTupleSize) :
    (freshPage regularType).fits length = true := by
  have short : length ≤ 32720 := short
  have room : Page.align length ≤ 32724 := by
    simp only [Page.align]
    omega
  simp only [Page.fits, isNew_freshPage, Page.freeSpace, upper_freshPage, lower_freshPage]
  exact decide_eq_true room

end Steps

section Sites

variable {mode : Mode} {moment : Moment} {excluded : Option BlockNumber} {length rounds : Nat}

/-- Locking the last page of the index. -/
theorem lockLast_spec (steady : Steady mode moment) (held : ∀ block ∈ moment.held, excluded = some block)
    (loose : mode = .solo → ∀ block, moment.scene.Loose block → excluded = some block) :
    Ensures mode (fun found later =>
      (found = none → Waits mode moment later ∧ Steady mode later ∧ later.accessor = moment.accessor) ∧
      ∀ site, found = some site → Sited mode excluded length moment site later)
      (Placement.lockLast excluded length) moment := by
  simp only [Placement.lockLast]
  refine steady.countBlocks fun m1 w1 s1 a1 => ?_
  split
  · exact ⟨fun _ => ⟨w1, s1, a1⟩, fun _ found => (by cases found)⟩
  · rename_i several
    rw [not_or] at several
    obtain ⟨several, apart⟩ := several
    have small := s1.sound.shape.small
    have count : (UInt32.ofNat m1.scene.image.size).toNat = m1.scene.image.size :=
      UInt32.toNat_ofNat_of_lt' small
    have many : 1 < m1.scene.image.size := by
      have := UInt32.lt_iff_toNat_lt.mp (UInt32.not_le.mp several)
      rwa [count] at this
    have last : (UInt32.ofNat m1.scene.image.size - 1).toNat < m1.scene.image.size := by
      rw [UInt32.toNat_sub_of_le _ _ (UInt32.le_iff_toNat_le.mpr (by rw [count]; exact Nat.le_of_lt many)), count]
      have : (1 : UInt32).toNat = 1 := rfl
      omega
    generalize UInt32.ofNat m1.scene.image.size - 1 = block at apart last
    have unheld : ∀ {m : Moment}, m.held = moment.held → block ∉ m.held := fun eq mem =>
      apart (held block (eq ▸ mem))
    refine s1.pin (fun _ => last) fun m2 w2 s2 a2 inside => ?_
    refine s2.acquire (fun _ => ⟨inside, unheld (w2.held_eq.trans w1.held_eq)⟩) fun m3 page w3 s3 a3 at3 free3 => ?_
    have waits := w1.trans (w2.trans w3)
    have accessor := a3.trans (a2.trans a1)
    split
    · rename_i takes
      simp only [Bool.and_eq_true, Bool.not_eq_true'] at takes
      obtain ⟨⟨kind, takes⟩, fits⟩ := takes
      refine ⟨fun found => (by cases found), fun site eq => ?_⟩
      obtain rfl := Option.some.inj eq
      have adds := Adds.of_waits waits s3 accessor
      refine ⟨⟨adds.drift, s3.lock _, accessor, fun _ => List.cons_ne_nil _ _, adds.kept⟩,
        ⟨at3, s3.sound.shape.regular_of at3 kind, takes, fun fresh => (by cases fresh), ?_⟩, fits,
        by rw [waits.held_eq], unheld rfl, fun solo => ?_⟩
      · rintro rfl - looseBlock
        rw [waits.scene_eq_of_solo] at looseBlock
        exact apart (loose rfl block looseBlock)
      · subst solo
        exact fun other looseOther => .inl (by rwa [waits.scene_eq_of_solo] at looseOther)
    · refine Ensures.locked (List.cons_ne_nil _ _) ?_
      have back : (block :: m3.held).erase block = m3.held := List.erase_cons_head ..
      refine ⟨fun _ => ⟨⟨?_, waits.locked, waits.free⟩, s3.lock _, accessor⟩, fun _ found => (by cases found)⟩
      exact back.trans waits.held_eq

/-- Locking a page with room. Alone, the first new page is taken. -/
theorem lockSite_spec (steady : Steady mode moment) (held : ∀ block ∈ moment.held, excluded = some block)
    (regular : moment.HoldsRegular)
    (loose : mode = .solo → ∀ block, moment.scene.Loose block → excluded = some block)
    (short : length ≤ maxTupleSize) (fuel : mode = .solo → 1 ≤ rounds) :
    Ensures mode (fun site later => Sited mode excluded length moment site later)
      (Placement.lockSite excluded length rounds) moment := by
  induction rounds generalizing moment with
  | zero =>
      cases mode with
      | shared rights => exact ⟨Mode.shared_ne_solo rights, steady⟩
      | solo => exact absurd (fuel rfl) (by decide)
  | succ rounds ih =>
      simp only [Placement.lockSite]
      refine (lockLast_spec steady held loose).andThen ?_
      rintro found m1 ⟨waits, sited⟩
      cases found with
      | some site => exact sited site rfl
      | none =>
          obtain ⟨w1, s1, a1⟩ := waits rfl
          simp only
          refine s1.allocate fun m2 block m3 w2 a2 s2 added a3 held3 => ?_
          have w2' := w1.trans w2
          have adds3 := (Adds.of_waits w2' s2 (a2.trans a1)).trans (added.adds (a3.trans a2.symm) held3)
          have apart := added.ne_meta s2.sound
          refine added.steady.acquire (fun solo => ⟨Image.lt_of_page? added.at_block, fun mem => ?_⟩)
            fun m4 page w4 s4 a4 at4 free4 => ?_
          · -- locked pages were there before
            subst solo
            rw [held3] at mem
            obtain ⟨page, at', -⟩ := regular.wait w2' block mem
            exact absurd (Image.lt_of_page? at') (Nat.not_lt.mpr added.behind)
          · have adds4 := adds3.trans (.of_waits w4 s4 a4)
            have held4 : m4.held = moment.held := w4.held_eq.trans (held3.trans w2'.held_eq)
            split
            · rename_i is_new
              obtain rfl := s4.sound.shape.zero_of at4 apart is_new
              obtain ⟨s5, drift5⟩ := (s4.lock (block :: m4.held)).quietly (.format apart at4)
                (s4.sound.shape.quiet_format apart at4)
              refine Ensures.write (List.cons_ne_nil _ _) ⟨⟨adds4.drift.trans drift5, s5, adds4.accessor_eq,
                fun _ => List.cons_ne_nil _ _, fun alone other page at' => ?_⟩,
                ⟨Image.page?_put_same _ at4, regular_freshPage, isEvacuating_freshPage _, fun _ => rfl,
                  fun _ fresh => (by cases fresh)⟩, fits_freshPage short, by rw [← held4]; rfl,
                    by rwa [← held4, w4.held_eq],
                fun solo other looseOther => ?_⟩
              · refine (Image.page?_put_other ?_).trans (adds4.kept alone other page at')
                rintro rfl
                rw [← w2'.scene_eq_of_alone alone] at at'
                exact absurd (Image.lt_of_page? at') (Nat.not_lt.mpr added.behind)
              · subst solo
                refine (Scene.Loose.of_put looseOther).elim (fun looseOther => ?_) .inr
                rw [show m4.scene = _ from w4.scene_eq_of_solo] at looseOther
                refine (added.loose rfl other looseOther).imp_left fun looseOther => ?_
                rwa [w2'.scene_eq_of_solo] at looseOther
            · rename_i taken
              have shared : mode = .solo → False := by
                rintro rfl
                rw [w4.scene_eq_of_solo] at at4
                obtain rfl := Option.some.inj (added.at_block.symm.trans at4)
                exact taken Page.isNew_zero
              refine Ensures.locked (List.cons_ne_nil _ _) ?_
              have back : (block :: m4.held).erase block = moment.held := by
                rw [List.erase_cons_head, held4]
              have adds5 : Adds mode moment { m4 with held := (block :: m4.held).erase block } :=
                ⟨adds4.drift, s4.lock _, adds4.accessor_eq, fun ne => by rwa [back], adds4.kept⟩
              refine (ih adds5.steady (by rw [back]; exact held) (regular.add adds5 back)
                (fun solo => (shared solo).elim) (fun solo => (shared solo).elim)).mono
                fun site later sited => sited.after adds5 back fun solo => (shared solo).elim

end Sites

/-! ## Moving a summary -/

/-- Alone, an operation committed a change of its own that changes the binding of one range. -/
def Rebinds (scene after : Scene) (heapBlock : BlockNumber) (new : Option (List UInt8)) : Prop :=
  ∃ middle record pages contents, Drift .solo scene middle ∧
    Change .solo middle middle.image.contents record pages contents ∧
    after = middle.commit record pages ∧ record.rebinds = some (heapBlock, new)

theorem Rebinds.after {scene middle after : Scene} {heapBlock : BlockNumber}
    {new : Option (List UInt8)} (drift : Drift .solo scene middle)
    (h : Rebinds middle after heapBlock new) : Rebinds scene after heapBlock new := by
  obtain ⟨inner, record, pages, contents, drift', change, eq, rebinds⟩ := h
  exact ⟨inner, record, pages, contents, drift.trans drift', change, eq, rebinds⟩

/-- Alone, an operation bound a range to what it stored in place of a summary. -/
structure Moves (moment : Moment) (heapBlock : BlockNumber) (payload : List UInt8) (old : ItemPointer)
    (later : Moment) : Prop where
  rebinds : Rebinds moment.scene later.scene heapBlock (some payload)
  contents_eq : later.contents = moment.contents
  loose : ∀ block, later.scene.Loose block → moment.scene.Loose block
  deleted : ∀ page, moment.scene.image.page? old.block = some page → ∃ page',
    later.scene.image.page? old.block = some page' ∧ isRegular page' = true ∧
    page'.itemAt old.offset.toNat = none ∧
    ∀ offset, offset ≠ old.offset.toNat → page'.itemAt offset = page.itemAt offset

/-- Among others an operation that stores a summary in place of another one has the right to
bind the range to it, or the summary that is there, if any, is the same. -/
def Mode.Replaces (mode : Mode) (image : Image) (heapBlock : BlockNumber) (payload : List UInt8) (old : ItemPointer)
    (tuple : List UInt8) : Prop :=
  ∀ rights gaps, mode = .shared rights gaps → rights heapBlock (some payload) ∨ Retains image old tuple

theorem Mode.Grants.replaces {mode : Mode} {heapBlock : BlockNumber} {payload : List UInt8}
    (grants : mode.Grants heapBlock (some payload)) (image : Image) (old : ItemPointer) (tuple : List UInt8) :
    mode.Replaces image heapBlock payload old tuple :=
  fun rights gaps eq => .inl (grants rights gaps eq)

section Moving

variable {mode : Mode} {moment : Moment} {heapBlock : BlockNumber} {tuple payload : List UInt8} {rounds : Nat}

theorem Mode.Replaces.later {scene after : Scene} {old : ItemPointer}
    (replaces : mode.Replaces scene.image heapBlock payload old tuple) (evolves : Evolves mode.together scene after)
    (sound : Sound scene.image scene.image.contents) : mode.Replaces after.image heapBlock payload old tuple :=
  fun rights gaps eq => (replaces rights gaps eq).imp_right (evolves.retains sound)

/-- Storing a summary where the entry of its range points is permitted. -/
theorem Mode.Replaces.permits {scene : Scene} {contents : Metapage} {record : Log.Record} {old : ItemPointer}
    {mapBlock : BlockNumber} {bytes : List UInt8} (replaces : mode.Replaces scene.image heapBlock payload old tuple)
    (sound : Sound scene.image contents) (covered : Covers scene.image contents heapBlock mapBlock)
    (entry : entryIn scene.image mapBlock (contents.addressing.slot heapBlock) = some old)
    (there : tupleAt scene.image old = some bytes) (decoded : Summary.decode tuple = some ⟨heapBlock, payload⟩)
    (rebinds : record.rebinds = some (heapBlock, some payload)) : mode.Permits scene contents record := by
  cases mode with
  | solo => exact trivial
  | shared rights =>
      intro changed new eq
      obtain ⟨rfl, rfl⟩ := Prod.mk.inj (Option.some.inj (eq.symm.trans rebinds))
      refine (replaces rights _ rfl).imp_right fun retains payload' => ?_
      obtain rfl := retains.same bytes there
      have binds : Binds scene.image contents changed payload := ⟨mapBlock, old, bytes, covered, entry, there, decoded⟩
      constructor
      · intro same
        obtain rfl := Option.some.inj same
        exact binds
      · exact fun binds' => congrArg some (View.Binds.unique sound.shape.functional binds binds')

@[simp]
theorem ensures_map_lift_ok {α β γ : Type} {post : α → Moment → Prop} {f : β → γ} {value : β}
    {rest : γ → Procedure α} :
    Ensures mode post ((f <$> (liftM (Except.ok value : Except Fault β) : Procedure β)) >>= rest) moment ↔
      Ensures mode post (rest (f value)) moment := Iff.rfl

theorem Image.Keeps.contents_eq {image after : Image} {contents : Metapage} (keeps : image.Keeps after)
    (holds : image.Holds contents) : after.contents = contents := by
  obtain ⟨page, at', holds⟩ := holds
  exact Image.contents_eq ⟨page, keeps _ _ at', holds⟩

/-- Storing a tuple on a locked site. -/
theorem addTo_spec {site : Placement.Site} {post : OffsetNumber × Page → Moment → Prop}
    (held : moment.held ≠ []) (regular : Regular site.page) (fits : site.page.fits tuple.length = true)
    (decoded : Summary.decode tuple = some ⟨heapBlock, payload⟩)
    (h : ∀ offset : OffsetNumber, ∀ page',
      site.page.addItem tuple (some offset.toNat) = .ok (some (offset.toNat, page')) →
      site.page.Stored offset.toNat tuple page' → (ItemPointer.mk site.block offset).isValid = true →
      post (offset, page') (moment.withImage (moment.scene.image.put site.block page'))) :
    Ensures mode post (Placement.addTo site tuple) moment := by
  have nonempty : 0 < tuple.length := by
    rw [Summary.decode] at decoded
    split at decoded
    · cases decoded
    · omega
  obtain ⟨offset, page', eq, again, low, high, stored⟩ := Page.addItem_of_fits regular.packed fits nonempty
  have bound : (UInt16.ofNat offset).toNat = offset := by
    have lower := regular.packed.lower_eq
    have := site.page.lower.toNat_lt
    simp only [headerSize, Page.pointerSize] at lower
    exact UInt16.toNat_ofNat_of_lt' (by simp only [UInt16.size]; omega)
  simp only [Placement.addTo]
  rw [eq, ensures_lift_ok]
  refine Ensures.write held (h _ page' (by rwa [bound]) (by rwa [bound]) ?_)
  simp only [ItemPointer.isValid, bne_iff_ne]
  intro zero
  rw [zero] at bound
  simp at bound
  omega

/-- Under all locks, storing a summary on a site in place of the one that the entry of the range
points at. -/
theorem replace_spec {old : ItemPointer} {site : Placement.Site} {mapBlock : BlockNumber} {oldPage mapPage : Page}
    {bytes before : List UInt8} {may : Prop} (steady : Steady mode moment) (held : moment.held ≠ [])
    (start : moment.contents.addressing.IsStart heapBlock)
    (decoded : Summary.decode tuple = some ⟨heapBlock, payload⟩)
    (covered : Covers moment.scene.image moment.contents heapBlock mapBlock)
    (at_map : moment.scene.image.page? mapBlock = some mapPage)
    (at_old : moment.scene.image.page? old.block = some oldPage) (regular : Regular oldPage)
    (item : oldPage.itemAt old.offset.toNat = some bytes)
    (decoded_old : Summary.decode bytes = some ⟨heapBlock, before⟩)
    (good : Site mode moment.scene site.block site.page site.fresh) (fits : site.page.fits tuple.length = true)
    (apart : old.block ≠ site.block)
    (replaces : may → mode.Replaces moment.scene.image heapBlock payload old tuple) :
    Ensures mode (fun moved later => later.held = [] ∧ later.accessor = moment.accessor ∧ moved ≠ none ∧
      (may → Steady mode later ∧ Evolves mode moment.scene later.scene) ∧
      Binds later.scene.image later.contents heapBlock payload ∧
      (mode = .solo → Moves moment heapBlock payload old later ∧ ¬ later.scene.Loose site.block))
      (do
        let index ← moment.contents.addressing.entryIndex heapBlock
        if (← entry mapPage index) ≠ old then
          Procedure.releaseAll
          return none
        let (offset, newPage) ← Placement.addTo site tuple
        let oldPage ← oldPage.deleteItem old.offset.toNat
        Procedure.write old.block oldPage
        let mapPage ← setEntry mapPage index ⟨site.block, offset⟩
        Procedure.write mapBlock mapPage
        Procedure.markDirty old.block
        Procedure.markDirty site.block
        Procedure.markDirty mapBlock
        Procedure.logged
          (.update heapBlock moment.contents.addressing.pagesPerRange moment.contents.addressing.appendOnly mapBlock
            old.block old.offset site.block offset tuple site.fresh)
          [(old.block, oldPage), (site.block, newPage), (mapBlock, mapPage)]
        Procedure.releaseAll
        return some (ItemPointer.mk site.block offset)) moment := by
  have sound := steady.sound
  -- the tuple is there, so that the entry points at it
  have there := (tupleAt_of_regular at_old regular).trans item
  have points : entryIn moment.scene.image mapBlock (moment.contents.addressing.slot heapBlock) = some old :=
    sound.linked.entry_of_tuple sound.shape.functional there decoded_old covered
  obtain ⟨page, at', -, bound, valid_old, same⟩ := entryIn_eq_some points
  obtain rfl : mapPage = page := Option.some.inj (at_map.symm.trans at')
  rw [Addressing.entryIndex_eq sound.shape.valid, ensures_lift_ok, entry_eq mapPage bound, ensures_lift_ok,
    if_neg (not_not.mpr same)]
  refine (addTo_spec held good.regular fits decoded fun offset page' added stored valid_new => ?_).andThen
    fun _ _ eq => eq
  obtain ⟨oldPage', removed, deleted⟩ := Page.deleteItem_spec regular.packed old.offset.toNat
  rw [removed, ensures_lift_ok]
  refine Ensures.write held ?_
  rw [setEntry_eq mapPage bound, ensures_lift_ok]
  refine Ensures.write held (Ensures.markDirty held (Ensures.markDirty held (Ensures.markDirty held ?_)))
  have change : Change mode moment.scene moment.contents _ _ moment.contents :=
    .update start decoded covered at_old regular removed deleted apart good added stored valid_new at_map same valid_old
  refine Ensures.committed held steady.evolves sound change (.swap _ _ _) rfl ?_
  have rebinds : (Log.Record.update heapBlock moment.contents.addressing.pagesPerRange
      moment.contents.addressing.appendOnly mapBlock old.block old.offset site.block offset tuple site.fresh).rebinds =
        some (heapBlock, some payload) := by
    simp only [Log.Record.rebinds, decoded, Option.map_some]
  have step (allowed : may) : Advance mode moment.scene _ :=
    .commit sound change ((replaces allowed).permits sound covered points there decoded rebinds)
  refine Ensures.locked held ⟨rfl, rfl, Option.some_ne_none _,
    fun allowed => ⟨(steady.advance (step allowed)).lock [], .single (step allowed)⟩, change.binds sound rebinds, ?_⟩
  rintro rfl
  have effect := change.effect sound
  refine ⟨⟨⟨_, _, _, _, .refl _ _, change, rfl, rebinds⟩, Image.contents_eq effect.sound.holds,
    fun block loose => (change.loose sound loose).1, fun page at_page => ?_⟩, fun loose => ?_⟩
  · obtain rfl := Option.some.inj (at_old.symm.trans at_page)
    obtain ⟨regular', items, -⟩ := moment.scene.regular_stamp _ (regular.of_frame deleted.packed deleted.frame)
    exact ⟨_, Scene.page?_commit_mem _ _ (change.nodup sound) List.mem_cons_self at_old,
      regular'.isRegular, (items _).trans deleted.itemAt_same,
      fun offset ne => (items offset).trans (deleted.itemAt_other offset ne)⟩
  · have flag := (change.loose sound loose).2 page' (List.mem_cons_of_mem _ List.mem_cons_self)
    rw [good.regular.isEvacuating_of_frame stored.frame, good.takes] at flag
    cases flag

/-- What an operation did that went on from a moment with the same pages, but for a page that
was added and is the last one that the log did not know about. -/
theorem Moves.since {middle later : Moment} {old : ItemPointer} {added : BlockNumber}
    (moves : Moves middle heapBlock payload old later) (sound : Sound moment.scene.image moment.contents)
    (drift : Drift .solo moment.scene middle.scene) (keeps : moment.scene.image.Keeps middle.scene.image)
    (loose : ∀ block, middle.scene.Loose block → moment.scene.Loose block ∨ block = added)
    (known : ¬ later.scene.Loose added) : Moves moment heapBlock payload old later where
  rebinds := moves.rebinds.after drift
  contents_eq := moves.contents_eq.trans (keeps.contents_eq sound.holds)
  loose block loose' := by
    rcases loose block (moves.loose block loose') with before | rfl
    · exact before
    · exact absurd loose' known
  deleted page at_page := moves.deleted page (keeps _ _ at_page)

/-- Moving the summary of a range. An operation that may not change the binding of the range still
keeps its contract as long as it changes nothing. -/
theorem move_spec {old : ItemPointer} {may : Prop} (steady : Steady mode moment) (free : moment.held = [])
    (start : moment.contents.addressing.IsStart heapBlock)
    (decoded : Summary.decode tuple = some ⟨heapBlock, payload⟩) (short : tuple.length ≤ maxTupleSize)
    (present : mode = .solo → ∃ bytes before, tupleAt moment.scene.image old = some bytes ∧
      Summary.decode bytes = some ⟨heapBlock, before⟩)
    (reaches : mode = .solo → moment.accessor.Reaches heapBlock)
    (loose : mode = .solo → ∀ block, moment.scene.Loose block → block = old.block)
    (replaces : may → mode.Replaces moment.scene.image heapBlock payload old tuple)
    (fuel : mode = .solo → enoughRounds ≤ rounds) :
    Ensures mode (fun moved later => later.held = [] ∧ SameCache moment.accessor later.accessor ∧
      (may ∨ moved = none → Steady mode later ∧ Evolves mode.together moment.scene later.scene) ∧
      (moved ≠ none → Binds later.scene.image later.contents heapBlock payload) ∧
      (mode = .solo → moved ≠ none ∧ Moves moment heapBlock payload old later))
      (Placement.move rounds heapBlock old tuple) moment := by
  have addressing := steady.knows.addressing_eq
  have at_old : mode = .solo → ∃ page, moment.scene.image.page? old.block = some page ∧
      isRegular page = true ∧ (summaryOn page old.offset).map Summary.heapBlock = some heapBlock := by
    intro solo
    obtain ⟨bytes, before, tuple, decoded⟩ := present solo
    obtain ⟨page, at', kind, item⟩ := tupleAt_eq_some tuple
    exact ⟨page, at', kind, by rw [summaryOn, item, Option.bind_some, decoded]; rfl⟩
  simp only [Placement.move]
  refine steady.accessor fun m1 w1 s1 a1 => ?_
  refine s1.pin (fun solo => ?_) fun m2 w2 s2 a2 inside => ?_
  · subst solo
    obtain ⟨page, at', -⟩ := at_old rfl
    rw [w1.scene_eq_of_solo]
    exact Image.lt_of_page? at'
  refine s2.acquire (fun solo => ⟨inside, ?_⟩) fun m3 oldPage w3 s3 a3 at3 _ => ?_
  · rw [w2.held_eq, w1.held_eq, free]
    exact List.not_mem_nil
  have waits := w1.trans (w2.trans w3)
  have accessor3 : m3.accessor = moment.accessor := a3.trans (a2.trans a1)
  have held3 : m3.held = [] := waits.held_eq.trans free
  have steady3 : Steady mode { m3 with held := old.block :: m3.held } := s3.lock _
  -- the operation gives up when it finds the summary gone, which another one has to do
  have abandon : (mode = .solo → False) →
      Ensures mode (fun (moved : Option ItemPointer) later => later.held = [] ∧
        SameCache moment.accessor later.accessor ∧
        (may ∨ moved = none → Steady mode later ∧ Evolves mode.together moment.scene later.scene) ∧
        (moved ≠ none → Binds later.scene.image later.contents heapBlock payload) ∧
        (mode = .solo → moved ≠ none ∧ Moves moment heapBlock payload old later))
        (do Procedure.releaseAll; return none) { m3 with held := old.block :: m3.held } :=
    fun others => Ensures.locked (List.cons_ne_nil _ _) ⟨rfl, .of_eq accessor3,
      fun _ => ⟨steady3.lock _, waits.interferes.evolves⟩, fun moved => absurd rfl moved,
      fun solo => (others solo).elim⟩
  by_cases kind : isRegular oldPage = true
  · have regular := s3.sound.shape.regular_of at3 kind
    rw [if_pos kind, regular.summaryAt_eq, ensures_map_lift_ok]
    by_cases found : (summaryOn oldPage old.offset).any (fun summary => summary.heapBlock == heapBlock) = true
    · simp only [found]
      obtain ⟨⟨heapBlock', before⟩, on_page, here⟩ := (Option.any_eq_true _ _).mp found
      obtain rfl : heapBlock = heapBlock' := (beq_iff_eq.mp here).symm
      obtain ⟨bytes, item, decoded_old⟩ := Option.bind_eq_some_iff.mp on_page
      have only : ∀ block ∈ old.block :: m3.held, block = old.block := by
        rw [held3]
        exact fun block mem => List.mem_singleton.mp mem
      have regular3 : Moment.HoldsRegular { m3 with held := old.block :: m3.held } := fun block mem =>
        ⟨oldPage, only block mem ▸ at3, regular⟩
      refine (lockSite_spec steady3 (fun block mem => congrArg some (only block mem).symm) regular3
        (fun solo block looseBlock => ?_) short (fun solo => ?_)).andThen ?_
      · subst solo
        rw [show m3.scene = _ from waits.scene_eq_of_solo] at looseBlock
        exact congrArg some (loose rfl block looseBlock).symm
      · have := fuel solo
        simp only [enoughRounds] at this
        omega
      rintro site m4 sited
      refine (lockPage_spec heapBlock sited.adds.steady (sited.holdsRegular regular3) fuel fun solo => ?_).andThen ?_
      · rw [sited.adds.accessor_eq, show m3.accessor = _ from accessor3]
        exact reaches solo
      rintro ⟨mapBlock, mapPage⟩ m5 locked
      have held4 : m4.held ≠ [] := by
        rw [sited.held_eq]
        exact List.cons_ne_nil _ _
      have scene5 : m5.scene = m4.scene := (locked.locked held4).1
      have cache5 : SameCache moment.accessor m5.accessor := by
        have := locked.cache
        rwa [sited.adds.accessor_eq, show m3.accessor = _ from accessor3] at this
      have drift5 : Drift mode moment.scene m5.scene := by
        rw [scene5]
        exact (Drift.of_interferes waits.interferes).trans sited.adds.drift
      have addressing5 : m5.contents.addressing = moment.accessor.addressing :=
        ((steady.grows_of_evolves drift5.evolves).2.addressing_eq).trans addressing.symm
      have at_old5 : m5.scene.image.page? old.block = some oldPage := by
        rw [scene5]
        exact sited.adds.kept (.inr (List.cons_ne_nil _ _)) _ _ at3
      have apart : old.block ≠ site.block := fun eq => sited.free (eq ▸ List.mem_cons_self)
      have replaced := replace_spec locked.steady (by rw [locked.held_eq]; exact List.cons_ne_nil _ _)
        (by rw [addressing5, addressing]; exact start) decoded locked.covered locked.at_block at_old5 regular item
        decoded_old (by rw [scene5]; exact sited.good) sited.fits apart
        (fun allowed => (replaces allowed).later drift5.evolves steady.sound)
      rw [addressing5] at replaced
      refine replaced.mono ?_
      rintro moved m6 ⟨free6, accessor6, some_moved, kept, binds, alone⟩
      refine ⟨free6, accessor6 ▸ cache5, fun allowed => ?_, fun _ => binds, ?_⟩
      · obtain ⟨s6, evolves6⟩ := kept (allowed.resolve_right some_moved)
        exact ⟨s6, drift5.evolves.trans evolves6.together⟩
      rintro rfl
      obtain ⟨moves, known⟩ := alone rfl
      have scene3 : m3.scene = moment.scene := waits.scene_eq_of_solo
      refine ⟨some_moved, moves.since steady.sound drift5 ?_ (fun block looseBlock => ?_) known⟩
      · rw [scene5, ← scene3]
        exact sited.adds.kept (.inl rfl)
      · rw [scene5] at looseBlock
        rw [← scene3]
        exact sited.loose rfl block looseBlock
    · simp only [found]
      refine abandon ?_
      rintro rfl
      obtain ⟨page, at', -, here⟩ := at_old rfl
      rw [waits.scene_eq_of_solo, at'] at at3
      obtain rfl := Option.some.inj at3
      obtain ⟨summary, eq, rfl⟩ := Option.map_eq_some_iff.mp here
      rw [eq] at found
      exact found (beq_self_eq_true _)
  · rw [if_neg kind]
    refine abandon ?_
    rintro rfl
    obtain ⟨page, at', kind', -⟩ := at_old rfl
    rw [waits.scene_eq_of_solo, at'] at at3
    exact kind (Option.some.inj at3 ▸ kind')

/-! ## Evacuating a page -/

theorem Drift.sound {mode : Mode} {scene after : Scene} (drift : Drift mode scene after)
    (sound : Sound scene.image scene.image.contents) : Sound after.image after.image.contents :=
  drift.evolves.sound_contents sound

/-- The range has the new payload, and the other ranges have what they had. -/
theorem Rebinds.binds {scene after : Scene} {new : Option (List UInt8)} {other : BlockNumber} {payload' : List UInt8}
    (rebinds : Rebinds scene after heapBlock new) (sound : Sound scene.image scene.image.contents) :
    Binds after.image after.image.contents other payload' ↔
      if other = heapBlock then new = some payload' else Binds scene.image scene.image.contents other payload' := by
  obtain ⟨middle, record, pages, contents, drift, change, rfl, eq⟩ := rebinds
  have effect := change.effect (drift.sound sound)
  rw [Image.contents_eq effect.sound.holds, effect.binds, eq, Rebound, drift.neutral other payload']

/-- Binding a range to what it is bound to anyway changes no binding. -/
theorem Rebinds.drift {scene after : Scene} (rebinds : Rebinds scene after heapBlock (some payload))
    (sound : Sound scene.image scene.image.contents)
    (before : Binds scene.image scene.image.contents heapBlock payload) : Drift .solo scene after := by
  obtain ⟨middle, record, pages, contents, drift, change, rfl, eq⟩ := rebinds
  have sound' := drift.sound sound
  have before' := (drift.neutral heapBlock payload).mpr before
  refine drift.trans (.single (.commit sound' change trivial) fun _ => change.neutral sound' ?_)
  intro changed new eq' payload'
  obtain ⟨rfl, rfl⟩ := Prod.mk.inj (Option.some.inj (eq.symm.trans eq'))
  constructor
  · intro same
    obtain rfl := Option.some.inj same
    exact before'
  · exact fun after => congrArg some (View.Binds.unique sound'.shape.functional before' after)

/-- The items of a page are summaries that can be moved. -/
def Movable (addressing : Addressing) (items : List (Nat × List UInt8)) : Prop :=
  ∀ offset bytes, (offset, bytes) ∈ items → offset < 2 ^ 16 ∧ bytes.length ≤ maxTupleSize ∧
    ∃ summary, Summary.decode bytes = some summary ∧ addressing.IsStart summary.heapBlock

/-- An accessor of a plain index that knows the last page of the range map finds all entries. -/
theorem Steady.reaches_of_tuple (steady : Steady mode moment) {place : ItemPointer} {bytes : List UInt8}
    (plain : moment.accessor.addressing.appendOnly = false)
    (current : moment.accessor.lastMapPage = moment.contents.lastMapPage)
    (tuple : tupleAt moment.scene.image place = some bytes)
    (decoded : Summary.decode bytes = some ⟨heapBlock, payload⟩) : moment.accessor.Reaches heapBlock := by
  obtain ⟨summary, block, decoded', -, covered, -⟩ := steady.sound.linked.owned _ _ tuple
  obtain rfl := Option.some.inj (decoded.symm.trans decoded')
  have addressing := steady.knows.addressing_eq
  have kind : moment.contents.appendOnly = false := (congrArg Addressing.appendOnly addressing).symm.trans plain
  change Covers _ _ _ _ at covered
  rw [Covers, kind] at covered
  rw [Accessor.Reaches, plain, current, addressing, ← covered.1]
  exact covered.2

/-- Moving the given items of a page. Alone, they must be all that is on the page, and then it
has none afterwards. -/
theorem evacuate_spec {block : BlockNumber} {items : List (Nat × List UInt8)} (steady : Steady mode moment)
    (free : moment.held = []) (movable : Movable moment.accessor.addressing items)
    (nodup : (items.map Prod.fst).Nodup)
    (all : mode = .solo → ∃ page, moment.scene.image.page? block = some page ∧ isRegular page = true ∧
      ∀ offset bytes, page.itemAt offset = some bytes ↔ (offset, bytes) ∈ items)
    (reaches : mode = .solo → moment.accessor.addressing.appendOnly = false ∧
      moment.accessor.lastMapPage = moment.contents.lastMapPage)
    (loose : mode = .solo → ∀ other, moment.scene.Loose other → other = block)
    (retains : mode ≠ .solo → ∀ offset bytes, (offset, bytes) ∈ items →
      Retains moment.scene.image ⟨block, UInt16.ofNat offset⟩ bytes)
    (fuel : mode = .solo → enoughRounds ≤ rounds) :
    Ensures mode (fun _ later => later.held = [] ∧ Steady mode later ∧
      SameCache moment.accessor later.accessor ∧
      (mode = .solo → Drift .solo moment.scene later.scene ∧ later.contents = moment.contents ∧
        (∀ other, later.scene.Loose other → other = block) ∧
        ∃ page, later.scene.image.page? block = some page ∧ ∀ offset, page.itemAt offset = none))
      (Placement.evacuate rounds block items) moment := by
  induction items generalizing moment with
  | nil =>
      refine ⟨free, steady, .refl _, ?_⟩
      rintro rfl
      obtain ⟨page, at', -, items⟩ := all rfl
      refine ⟨.refl _ _, rfl, loose rfl, page, at', fun offset => ?_⟩
      cases item : page.itemAt offset with
      | none => rfl
      | some bytes => exact absurd ((items offset bytes).mp item) List.not_mem_nil
  | cons entry rest ih =>
      obtain ⟨offset, bytes⟩ := entry
      obtain ⟨small, short, ⟨heapBlock, payload⟩, decoded, start⟩ := movable offset bytes List.mem_cons_self
      have offset_eq : (UInt16.ofNat offset).toNat = offset := UInt16.toNat_ofNat_of_lt' small
      rw [List.map_cons, List.nodup_cons] at nodup
      simp only [Placement.evacuate]
      refine steady.poll fun m1 w1 s1 a1 => ?_
      rw [decoded]
      have addressing1 : m1.contents.addressing = moment.accessor.addressing := by
        rw [← s1.knows.addressing_eq, a1]
      have present : mode = .solo → tupleAt m1.scene.image ⟨block, UInt16.ofNat offset⟩ = some bytes := by
        rintro rfl
        obtain ⟨page, at', kind, items⟩ := all rfl
        rw [w1.scene_eq_of_solo, tupleAt_of_page at', if_pos kind]
        simp only [offset_eq]
        exact (items offset bytes).mpr List.mem_cons_self
      have current1 : mode = .solo → m1.accessor.lastMapPage = m1.contents.lastMapPage := by
        rintro rfl
        rw [a1, contents_solo w1]
        exact (reaches rfl).2
      refine (move_spec s1 (w1.held_eq.trans free) (by rw [addressing1]; exact start) decoded short
        (fun solo => ⟨bytes, payload, present solo, decoded⟩) (fun solo => ?_) (fun solo other looseOther => ?_)
        (fun (_ : True) rights _ shared => .inr ?_) fuel).andThen ?_
      · exact s1.reaches_of_tuple (by rw [a1]; exact (reaches solo).1) (current1 solo) (present solo) decoded
      · subst solo
        rw [w1.scene_eq_of_solo] at looseOther
        exact loose rfl other looseOther
      · exact w1.interferes.evolves.retains steady.sound
          (retains (by rw [shared]; nofun) offset bytes List.mem_cons_self)
      rintro moved m2 ⟨free2, cache2, kept, -, moves⟩
      obtain ⟨steady2, evolves2⟩ := kept (.inl trivial)
      rw [a1] at cache2
      refine (ih steady2 free2 ?_ nodup.2 (fun solo => ?_) (fun solo => ?_) (fun solo other looseOther => ?_)
        (fun others offset bytes mem => ?_)).mono ?_
      · rw [cache2.addressing_eq]
        exact fun offset bytes mem => movable offset bytes (List.mem_cons_of_mem _ mem)
      · subst solo
        obtain ⟨page, at', kind, items⟩ := all rfl
        rw [← w1.scene_eq_of_solo] at at'
        obtain ⟨page', at'', kind', gone, others⟩ := (moves rfl).2.deleted page at'
        simp only [offset_eq] at gone others
        refine ⟨page', at'', kind', fun other bytes' => ?_⟩
        by_cases eq : other = offset
        · subst eq
          rw [gone]
          exact ⟨fun absent => (by cases absent), fun mem => absurd (List.mem_map_of_mem mem) nodup.1⟩
        · rw [others other eq, items, List.mem_cons]
          exact or_iff_right fun same => eq (congrArg Prod.fst same)
      · subst solo
        rw [cache2.addressing_eq, cache2.last_eq, (moves rfl).2.contents_eq, contents_solo w1]
        exact reaches rfl
      · subst solo
        have looseOther := (moves rfl).2.loose other looseOther
        rw [w1.scene_eq_of_solo] at looseOther
        exact loose rfl other looseOther
      · exact Evolves.retains (w1.interferes.evolves.trans evolves2) steady.sound
          (retains others offset bytes (List.mem_cons_of_mem _ mem))
      · rintro - m3 ⟨free3, steady3, cache3, done⟩
        refine ⟨free3, steady3, cache2.trans cache3, ?_⟩
        rintro rfl
        obtain ⟨drift, contents, rest⟩ := done rfl
        have moves := (moves rfl).2
        have bound : Binds m1.scene.image m1.contents heapBlock payload := by
          obtain ⟨summary, page, decoded', -, covered, entry⟩ := s1.sound.linked.owned _ _ (present rfl)
          obtain rfl := Option.some.inj (decoded.symm.trans decoded')
          exact ⟨page, _, bytes, covered, entry, present rfl, decoded⟩
        have first := moves.rebinds.drift s1.sound bound
        rw [w1.scene_eq_of_solo] at first
        exact ⟨first.trans drift, contents.trans (moves.contents_eq.trans (contents_solo w1)), rest⟩

end Moving

end Warehouse.RangeIndex
