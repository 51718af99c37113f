import Warehouse.Proofs.RangeIndex.Changes
import Warehouse.RangeIndex.Recovery

/-! # Rewriting the metapage

Whenever the range map grows, the metapage is read, one chain or the end of the range map of a plain table is
replaced in what was read, and the whole is stored again. Such an edit changes only the bytes of the contents
and the end of the line pointer array, and no number of edits disturbs the chains and fields that none of them
is about. -/

namespace Warehouse.RangeIndex

namespace Metapage

/-- The bytes around the contents of the metapage are the same on both pages, except for the end of the line
pointer array. -/
structure SameAround (page other : Page) : Prop where
  front : Page.SameOn 0 12 page other
  between : Page.SameOn 14 headerSize page other
  behind : Page.SameOn (headerSize + metaSize) pageSize page other

namespace SameAround

variable {page other third : Page}

theorem refl (page : Page) : SameAround page page :=
  ⟨.refl _ _ _, .refl _ _ _, .refl _ _ _⟩

theorem trans (h : SameAround page other) (h' : SameAround other third) : SameAround page third :=
  ⟨h.front.trans h'.front, h.between.trans h'.between, h.behind.trans h'.behind⟩

/-- What stands in the special area, among it the kind of the page, is the same. -/
theorem special_area (h : SameAround page other) : Page.SameOn (pageSize - specialSize) pageSize page other :=
  h.behind.mono (by decide) (Nat.le_refl _)

theorem pageType_eq (h : SameAround page other) : pageType page = pageType other :=
  (links_congr h.special_area).1

/-- The fields of the header are the same, except for the end of the line pointer array. -/
theorem header_eq (h : SameAround page other) :
    page.lsn = other.lsn ∧ page.upper = other.upper ∧ page.special = other.special :=
  ⟨h.front.lsn_eq (Nat.le_refl _) (by decide), h.between.upper_eq (Nat.le_refl _) (by decide),
    h.between.special_eq (by decide) (by decide)⟩

end SameAround

/-- Storing contents changes nothing around them. -/
theorem sameAround_write (contents : Metapage) (page : Page) : SameAround (contents.write page) page where
  front := sameOn_write contents page (.inl (Nat.le_refl _)) (.inl (by decide))
  between := sameOn_write contents page (.inr (Nat.le_refl _)) (.inl (Nat.le_refl _))
  behind := sameOn_write contents page (.inr (by decide)) (.inr (Nat.le_refl _))

/-- The line pointer array ends behind the contents. -/
theorem lower_write (contents : Metapage) (page : Page) :
    (contents.write page).lower = UInt16.ofNat (headerSize + metaSize) := by
  rw [write, Page.setLower, Page.lower, Page.word16_setWord16_same]

/-- Contents that were read may be stored again, on the same page or on another metapage. -/
theorem Holds.rewrite {page other : Page} {contents changed : Metapage} (held : Holds page contents)
    (kind : pageType other = metaType) (magic : changed.magic = contents.magic) :
    Holds (changed.write other) changed := by
  obtain ⟨-, found, rfl⟩ := holds_iff.mp held
  exact holds_write changed other kind (magic.trans found)

/-- A change of the metapage: one chain, or the end of the range map of a plain table, is replaced by a value
that is made from the contents. -/
inductive Edit where
  | chain (sequence : Fin sequenceCount) (next : Metapage → Chain)
  | lastMapPage (next : Metapage → BlockNumber)

namespace Edit

/-- The contents after the edit. -/
def apply : Edit → Metapage → Metapage
  | chain sequence next, contents =>
      { contents with chains := Chains.setChain contents.chains sequence.val (next contents) }
  | lastMapPage next, contents => { contents with lastMapPage := next contents }

/-- Read the metapage, change what was read, and store the whole again. -/
def perform (index : String) (block : BlockNumber) (page : Page) (edit : Edit) : Except Error Page := do
  let contents ← read page index block
  return (edit.apply contents).write page

/-- The contents after a number of edits. -/
def applyAll (edits : List Edit) (contents : Metapage) : Metapage :=
  edits.foldl (fun contents edit => edit.apply contents) contents

/-- Make a number of edits one after the other. -/
def performAll (index : String) (block : BlockNumber) (edits : List Edit) (page : Page) : Except Error Page :=
  edits.foldlM (perform index block) page

/-- The edit is about the chain of the given sequence. -/
def Touches (sequence : Fin sequenceCount) : Edit → Prop
  | chain other _ => other = sequence
  | lastMapPage _ => False

/-- The edit is about the end of the range map of a plain table. -/
def MovesEnd : Edit → Prop
  | chain .. => False
  | lastMapPage _ => True

/-- The chains and fields that none of the given edits is about are the same in both contents. -/
structure Untouched (edits : List Edit) (contents changed : Metapage) : Prop where
  magic : changed.magic = contents.magic
  version : changed.version = contents.version
  pagesPerRange : changed.pagesPerRange = contents.pagesPerRange
  appendOnly : changed.appendOnly = contents.appendOnly
  lastMapPage : (∀ edit ∈ edits, ¬ edit.MovesEnd) → changed.lastMapPage = contents.lastMapPage
  chains : ∀ sequence : Fin sequenceCount,
    (∀ edit ∈ edits, ¬ edit.Touches sequence) → changed.chains.get sequence = contents.chains.get sequence

namespace Untouched

variable {contents changed again : Metapage} {edits later : List Edit}

theorem refl (contents : Metapage) : Untouched [] contents contents :=
  ⟨rfl, rfl, rfl, rfl, fun _ => rfl, fun _ _ => rfl⟩

theorem trans (h : Untouched edits contents changed) (h' : Untouched later changed again) :
    Untouched (edits ++ later) contents again where
  magic := h'.magic.trans h.magic
  version := h'.version.trans h.version
  pagesPerRange := h'.pagesPerRange.trans h.pagesPerRange
  appendOnly := h'.appendOnly.trans h.appendOnly
  lastMapPage none := by
    rw [List.forall_mem_append] at none
    exact (h'.lastMapPage none.2).trans (h.lastMapPage none.1)
  chains sequence none := by
    rw [List.forall_mem_append] at none
    exact (h'.chains sequence none.2).trans (h.chains sequence none.1)

end Untouched

/-- A single edit touches only what it is about. -/
theorem untouched_apply (edit : Edit) (contents : Metapage) : Untouched [edit] contents (edit.apply contents) := by
  cases edit with
  | chain sequence next =>
      refine ⟨rfl, rfl, rfl, rfl, fun _ => rfl, fun other apart => ?_⟩
      have different : sequence.val ≠ other.val :=
        fun same => apart _ List.mem_cons_self (Fin.ext same)
      exact Vector.getElem_setIfInBounds_ne other.isLt different
  | lastMapPage next =>
      refine ⟨rfl, rfl, rfl, rfl, fun still => ?_, fun _ _ => rfl⟩
      exact absurd trivial (still _ List.mem_cons_self)

/-- The sequence of the edit has the chain that it was given. -/
theorem chains_apply (sequence : Fin sequenceCount) (next : Metapage → Chain) (contents : Metapage) :
    ((chain sequence next).apply contents).chains.get sequence = next contents :=
  Vector.getElem_setIfInBounds_self sequence.isLt

/-- One edit of a metapage succeeds. The page then has the edited contents, and around them nothing changed. -/
theorem perform_holds (index : String) (block : BlockNumber) {page : Page} {contents : Metapage}
    (held : Holds page contents) (edit : Edit) :
    ∃ after, perform index block page edit = .ok after ∧ Holds after (edit.apply contents) ∧
      SameAround after page := by
  have kind : pageType page = metaType := (holds_iff.mp held).1
  refine ⟨(edit.apply contents).write page, ?_, ?_, sameAround_write _ _⟩
  · simp only [perform, held index block]
    rfl
  · exact held.rewrite kind (untouched_apply edit contents).magic

/-- Any number of edits succeeds, and leaves what none of them is about as it was. -/
theorem performAll_holds (index : String) (block : BlockNumber) (edits : List Edit) {page : Page}
    {contents : Metapage} (held : Holds page contents) :
    ∃ after, performAll index block edits page = .ok after ∧ Holds after (applyAll edits contents) ∧
      SameAround after page ∧ Untouched edits contents (applyAll edits contents) := by
  induction edits generalizing page contents with
  | nil => exact ⟨page, rfl, held, .refl page, .refl contents⟩
  | cons edit rest ih =>
      obtain ⟨next, made, holdsNext, aroundNext⟩ := perform_holds index block held edit
      obtain ⟨after, finished, holdsAfter, aroundAfter, untouched⟩ := ih holdsNext
      refine ⟨after, ?_, holdsAfter, aroundAfter.trans aroundNext, ?_⟩
      · simp only [performAll, List.foldlM_cons, made]
        exact finished
      · exact (untouched_apply edit contents).trans untouched

/-- A chain grows by an edit. -/
theorem withGrown_eq (contents : Metapage) (sequence : Fin sequenceCount) (block : BlockNumber) (number : UInt32) :
    contents.withGrown sequence.val block number =
      (chain sequence fun contents => (contents.chain sequence.val).grown block number).apply contents :=
  rfl

/-- What recovery makes of the contents is an edit, too. -/
theorem exists_apply_eq {contents changed : Metapage} {target previousTail : BlockNumber} {appendOnly : Bool}
    {sequence logicalPage : UInt32}
    (extended : Recovery.extendContents contents target appendOnly sequence logicalPage previousTail = .ok changed) :
    ∃ edit : Edit, edit.apply contents = changed := by
  cases appendOnly with
  | false => exact ⟨lastMapPage fun _ => target, Except.ok.inj extended⟩
  | true =>
      rw [Recovery.extendContents, if_pos rfl] at extended
      split at extended
      case isTrue bound =>
        simp only [Chains.set_eq_setChain] at extended
        exact ⟨chain ⟨sequence.toNat, bound⟩ fun _ => _, Except.ok.inj extended⟩
      case isFalse => exact absurd extended nofun

/-- Recovery, too, reads the metapage, edits what it read, and stores the whole. -/
theorem exists_perform_eq {index : String} {target previousTail : BlockNumber} {appendOnly : Bool}
    {sequence logicalPage : UInt32} {page after : Page}
    (made : Recovery.extendMetapage index target appendOnly sequence logicalPage previousTail page = (.ok (), after)) :
    ∃ edit : Edit, perform index metaBlock page edit = .ok after := by
  rw [Recovery.extendMetapage] at made
  cases found : read page index metaBlock with
  | error cause =>
      rw [found] at made
      exact absurd (congrArg Prod.fst made) nofun
  | ok contents =>
      simp only [found] at made
      cases extended : Recovery.extendContents contents target appendOnly sequence logicalPage previousTail with
      | error failure =>
          rw [extended] at made
          exact absurd (congrArg Prod.fst made) nofun
      | ok changed =>
          rw [extended] at made
          obtain ⟨edit, rfl⟩ := exists_apply_eq extended
          refine ⟨edit, ?_⟩
          rw [perform, found]
          exact congrArg Except.ok (congrArg Prod.snd made)

end Edit

/-- Contents with the right number that are stored on a metapage are read back, and only they and the end of the
line pointer array have changed. From any page that can be read, reading, editing and storing any number of times
gives exactly the edits: every chain and every field that none of them is about stays as it was. -/
theorem read_write {page : Page} {contents : Metapage} (kind : pageType page = metaType)
    (magic : contents.magic = metaMagic) :
    Holds (contents.write page) contents ∧
      ((contents.write page).lower = 1580 ∧ (contents.write page).lsn = page.lsn ∧
        (contents.write page).upper = page.upper ∧ (contents.write page).special = page.special ∧
        pageType (contents.write page) = pageType page ∧
        Page.SameOn (pageSize - specialSize) pageSize (contents.write page) page ∧
        ∀ pos inside, pos < 12 ∨ 14 ≤ pos ∧ pos < 24 ∨ 1580 ≤ pos →
          (contents.write page).byte pos inside = page.byte pos inside) ∧
      ∀ {other : Page} {index : String} {block : BlockNumber} {found : Metapage},
        read other index block = .ok found →
        Holds (found.write other) found ∧
        ∀ (index : String) (block : BlockNumber) (edits : List Edit), ∃ after,
          Edit.performAll index block edits other = .ok after ∧ Holds after (Edit.applyAll edits found) ∧
          SameAround after other ∧ Edit.Untouched edits found (Edit.applyAll edits found) := by
  have around := sameAround_write contents page
  obtain ⟨lsn, upper, special⟩ := around.header_eq
  refine ⟨holds_write contents page kind magic,
    ⟨lower_write contents page, lsn, upper, special, around.pageType_eq, around.special_area, ?_⟩, ?_⟩
  · rintro pos inside (front | ⟨low, high⟩ | behind)
    · exact around.front pos inside (Nat.zero_le _) front
    · exact around.between pos inside low high
    · exact around.behind pos inside behind inside
  · intro other index block found eq
    have held := holds_of_read eq
    exact ⟨held.rewrite (holds_iff.mp held).1 rfl,
      fun index block edits => Edit.performAll_holds index block edits held⟩

/-- On the metapage of a new index, an index for append-only tables is stored whose fourth chain has two pages.
Then the chain grows by a page, and the range map moves its end. -/
theorem read_write_grown :
    let grown : Chain := ⟨4, 9, 3⟩
    let contents : Metapage :=
      { new 16 true with version := 7, chains := Chains.setChain (new 16 true).chains 3 ⟨4, 6, 2⟩ }
    let edits : List Edit := [.chain 3 fun _ => grown, .lastMapPage fun _ => 9]
    Holds (contents.write (initial 16 true)) contents ∧
      (contents.write (initial 16 true)).lower = 1580 ∧
      ∃ after, Edit.performAll "orders" metaBlock edits (contents.write (initial 16 true)) = .ok after ∧
        Holds after (Edit.applyAll edits contents) ∧
        (Edit.applyAll edits contents).chains.get 3 = grown ∧
        (Edit.applyAll edits contents).chains.get 4 = .empty ∧
        (Edit.applyAll edits contents).lastMapPage = 9 ∧
        (Edit.applyAll edits contents).version = 7 := by
  intro grown contents edits
  have kind : pageType (initial 16 true) = metaType :=
    (holds_iff.mp (holds_initial 16 true)).1
  obtain ⟨back, ⟨lower, -⟩, rest⟩ := @read_write (initial 16 true) contents kind rfl
  obtain ⟨-, edited⟩ := rest (back "orders" metaBlock)
  obtain ⟨after, made, found, -, untouched⟩ := edited "orders" metaBlock edits
  refine ⟨back, lower, after, made, found, ?_, ?_, rfl, untouched.version⟩
  · exact Edit.chains_apply 3 (fun _ => grown) contents
  · have apart : ∀ edit ∈ edits, ¬ edit.Touches 4 := by
      intro edit mem
      obtain rfl | rfl := List.mem_pair.mp mem
      · exact fun same => absurd (congrArg Fin.val same) (by decide)
      · exact not_false
    refine (untouched.chains 4 apart).trans ?_
    refine (Vector.getElem_setIfInBounds_ne (by decide) (by decide)).trans ?_
    exact Vector.getElem_replicate _

end Metapage

end Warehouse.RangeIndex
