import Mathlib.Logic.Function.Basic
import Warehouse.Proofs.Page.Updates

/-! # Edits of a page

A page that starts empty and is changed by adding and deleting items alone is a finite map
from offsets to items. `perform_spec` says what one edit comes to on a packed page, and by
induction `performAll_spec` says it of every sequence of edits. What the map holds depends
on the outcomes of the edits only: `contents_eq_some`. -/

namespace Warehouse.Page

/-- A change of the items of a page. -/
inductive Edit where
  | add (item : List UInt8) (wanted : Option Nat)
  | delete (offset : Nat)
  deriving DecidableEq, Repr

/-- What an edit came to. -/
inductive Outcome where
  | stored (offset : Nat) (item : List UInt8)
  | refused
  | deleted (offset : Nat)
  deriving DecidableEq, Repr

namespace Outcome

/-- The outcome is about the item of an offset. -/
def Touches : Outcome → Nat → Prop
  | .stored offset _, other => other = offset
  | .refused, _ => False
  | .deleted offset, other => other = offset

/-- The items after an outcome. -/
def apply (items : Nat → Option (List UInt8)) : Outcome → Nat → Option (List UInt8)
  | .stored offset item => Function.update items offset (some item)
  | .refused => items
  | .deleted offset => Function.update items offset none

@[simp]
theorem apply_stored_same (items : Nat → Option (List UInt8)) (offset : Nat) (item : List UInt8) :
    apply items (.stored offset item) offset = some item :=
  Function.update_self ..

theorem apply_of_not_touches {outcome : Outcome} {offset : Nat} (items : Nat → Option (List UInt8))
    (elsewhere : ¬ outcome.Touches offset) : outcome.apply items offset = items offset := by
  cases outcome with
  | stored => exact Function.update_of_ne elsewhere ..
  | refused => rfl
  | deleted => exact Function.update_of_ne elsewhere ..

/-- After an outcome an offset has the item that it stored there, or else one that it did not touch. -/
theorem apply_eq_some {outcome : Outcome} {offset : Nat} {item : List UInt8}
    {items : Nat → Option (List UInt8)} : outcome.apply items offset = some item ↔
      outcome = .stored offset item ∨ items offset = some item ∧ ¬ outcome.Touches offset := by
  by_cases touches : outcome.Touches offset
  · cases outcome with
    | stored offset' item' =>
        obtain rfl : offset = offset' := touches
        simp [Touches]
    | refused => exact touches.elim
    | deleted offset' =>
        obtain rfl : offset = offset' := touches
        simp [apply, Touches]
  · have elsewhere : outcome ≠ .stored offset item := by
      intro same
      rw [same] at touches
      exact touches rfl
    simp only [apply_of_not_touches _ touches, elsewhere, touches, not_false_eq_true, and_true, false_or]

/-- The items that a sequence of outcomes makes of others. -/
def applyAll (items : Nat → Option (List UInt8)) (outcomes : List Outcome) : Nat → Option (List UInt8) :=
  outcomes.foldl apply items

/-- The items that a sequence of outcomes leaves on a page that had none. -/
def contents (outcomes : List Outcome) : Nat → Option (List UInt8) :=
  applyAll (fun _ => none) outcomes

/-- The item was stored at the offset by one of the outcomes, and none of the later ones touched it. -/
def StoredLast (outcomes : List Outcome) (offset : Nat) (item : List UInt8) : Prop :=
  ∃ earlier later, outcomes = earlier ++ .stored offset item :: later ∧
    ∀ outcome ∈ later, ¬ outcome.Touches offset

theorem storedLast_cons {first : Outcome} {rest : List Outcome} {offset : Nat} {item : List UInt8} :
    StoredLast (first :: rest) offset item ↔
      (first = .stored offset item ∧ ∀ outcome ∈ rest, ¬ outcome.Touches offset) ∨
        StoredLast rest offset item := by
  constructor
  · intro ⟨earlier, later, eq, untouched⟩
    cases earlier with
    | nil =>
        obtain ⟨rfl, rfl⟩ := List.cons.inj eq
        exact .inl ⟨rfl, untouched⟩
    | cons head earlier =>
        obtain ⟨rfl, rfl⟩ := List.cons.inj eq
        exact .inr ⟨earlier, later, rfl, untouched⟩
  · intro found
    cases found with
    | inl here => exact ⟨[], rest, by rw [here.1]; rfl, here.2⟩
    | inr later =>
        obtain ⟨earlier, later, rfl, untouched⟩ := later
        exact ⟨first :: earlier, later, rfl, untouched⟩

theorem applyAll_eq_some {outcomes : List Outcome} {offset : Nat} {item : List UInt8}
    {items : Nat → Option (List UInt8)} : applyAll items outcomes offset = some item ↔
      StoredLast outcomes offset item ∨
        items offset = some item ∧ ∀ outcome ∈ outcomes, ¬ outcome.Touches offset := by
  induction outcomes generalizing items with
  | nil => simp [applyAll, StoredLast]
  | cons first rest ih =>
      have step : applyAll items (first :: rest) = applyAll (first.apply items) rest := rfl
      rw [step, ih, apply_eq_some, storedLast_cons, List.forall_mem_cons]
      tauto

/-- An offset has the item that was stored there last, unless it was deleted since. -/
theorem contents_eq_some {outcomes : List Outcome} {offset : Nat} {item : List UInt8} :
    contents outcomes offset = some item ↔ StoredLast outcomes offset item := by
  rw [contents, applyAll_eq_some]
  simp

example : contents [.stored 1 [1, 2], .stored 2 [], .deleted 1, .stored 1 [3]] 1 = some [3] := rfl

end Outcome

/-- Change the items of the page. -/
def perform (page : Page) : Edit → Except Fault (Outcome × Page)
  | .add item wanted => do
      match ← page.addItem item wanted with
      | some (offset, after) => return (.stored offset item, after)
      | none => return (.refused, page)
  | .delete offset => do return (.deleted offset, ← page.deleteItem offset)

/-- Change the items of the page by one edit after the other. -/
def performAll (page : Page) : List Edit → Except Fault (List Outcome × Page)
  | [] => .ok ([], page)
  | edit :: rest => do
      let (outcome, after) ← page.perform edit
      let (outcomes, last) ← after.performAll rest
      return (outcome :: outcomes, last)

/-! ## Empty pages -/

/-- A page is packed and has no items once it is initialised. -/
theorem init_spec {reserved : Nat} (room : headerSize + reserved ≤ pageSize) :
    ∃ empty, init reserved = .ok empty ∧ empty.Packed ∧ ∀ offset, empty.itemAt offset = none := by
  have fits : align reserved + headerSize ≤ pageSize := by
    simp only [align, headerSize, pageSize] at *
    omega
  have special : (UInt16.ofNat (pageSize - align reserved)).toNat = pageSize - align reserved := by
    rw [UInt16.toNat_ofNat', Nat.mod_eq_of_lt (by simp only [pageSize]; omega)]
  have packed : (blank (UInt16.ofNat (pageSize - align reserved))).Packed := by
    apply packed_blank
    · omega
    · omega
  refine ⟨_, if_pos (by omega), packed, ?_⟩
  intro offset
  rw [packed.itemAt_eq_none, pointerAt_blank]
  decide

/-! ## Where a new item goes -/

/-- A new item goes to the offset: it has no item, leaves no gap behind the array, and is the wanted
one, or the first such offset if none is wanted. -/
structure Chosen (page : Page) (wanted : Option Nat) (offset : Nat) : Prop where
  free : page.item offset = .ok none
  low : 1 ≤ offset
  high : offset ≤ page.maxOffset + 1
  asked : ∀ other, wanted = some other → offset = other
  least : wanted = none → ∀ other, 1 ≤ other → other < offset → page.item other ≠ .ok none

namespace Packed

variable {page : Page}

theorem item_eq_none (packed : page.Packed) {offset : Nat} :
    page.item offset = .ok none ↔ ¬ (page.pointerAt offset).isUsed := by
  rw [packed.item_eq, Except.ok.injEq, packed.itemAt_eq_none]

/-- All line pointers before the first unused one are taken. -/
theorem used_of_firstUnusedFrom (packed : page.Packed) {first count : Nat} {found : Option Nat}
    (eq : page.firstUnusedFrom first count = .ok found) :
    ∀ offset, first ≤ offset → offset < found.getD (first + count) → (page.pointerAt offset).isUsed := by
  induction count generalizing first with
  | zero =>
      obtain rfl := Except.ok.inj eq
      intro offset low high
      simp at high
      omega
  | succ count ih =>
      simp only [firstUnusedFrom, packed.pointer_eq first, bind, Except.bind] at eq
      intro offset low high
      by_cases used : (page.pointerAt first).isUsed
      · rw [if_pos used] at eq
        by_cases here : offset = first
        · rwa [here]
        · have rest := ih eq offset (by omega)
          rw [show first + 1 + count = first + (count + 1) by omega] at rest
          exact rest high
      · rw [if_neg used] at eq
        obtain rfl := Except.ok.inj eq
        simp only [Option.getD_some] at high
        omega

/-- The page offers an offset exactly when it is the one to choose. -/
theorem slotFor_spec (packed : page.Packed) (wanted : Option Nat) :
    ∃ found, page.slotFor wanted = .ok found ∧ ∀ offset, found = some offset ↔ page.Chosen wanted offset := by
  cases wanted with
  | some wanted =>
      by_cases outside : wanted = 0 ∨ page.maxOffset + 1 < wanted
      · refine ⟨none, by simp only [slotFor, outside, if_true, pure, Except.pure], ?_⟩
        intro offset
        constructor
        · intro found
          cases found
        · intro chosen
          obtain rfl := chosen.asked _ rfl
          have := chosen.low
          have := chosen.high
          omega
      · by_cases used : (page.pointerAt wanted).isUsed
        · refine ⟨none, by simp only [slotFor, outside, if_false, packed.pointer_eq, bind, Except.bind, used,
            if_true, pure, Except.pure], ?_⟩
          intro offset
          constructor
          · intro found
            cases found
          · intro chosen
            obtain rfl := chosen.asked _ rfl
            exact absurd used (packed.item_eq_none.mp chosen.free)
        · refine ⟨some wanted, packed.slotFor_some (by omega) (by omega) used, ?_⟩
          intro offset
          constructor
          · intro found
            obtain rfl := Option.some.inj found
            exact ⟨packed.item_eq_none.mpr used, by omega, by omega, fun _ => Option.some.inj,
              fun asked => absurd asked (Option.some_ne_none wanted)⟩
          · intro chosen
            rw [chosen.asked _ rfl]
  | none =>
      obtain ⟨found, eq, free⟩ := packed.firstUnusedFrom_eq 1 page.maxOffset
      have before := packed.used_of_firstUnusedFrom eq
      have slot : page.slotFor none = .ok (some (found.getD (1 + page.maxOffset))) := by
        cases found with
        | some offset => simp only [slotFor, eq, bind, Except.bind, pure, Except.pure, Option.getD_some]
        | none =>
            simp only [slotFor, eq, bind, Except.bind, pure, Except.pure, Option.getD_none, Nat.add_comm]
      have chosen : page.Chosen none (found.getD (1 + page.maxOffset)) := by
        constructor
        · rw [packed.item_eq_none]
          cases found with
          | some offset => exact (free offset rfl).2.2
          | none =>
              rw [Option.getD_none, pointerAt_outside (by omega)]
              decide
        · cases found with
          | some offset => exact (free offset rfl).1
          | none => exact Nat.le_add_right _ _
        · cases found with
          | some offset =>
              have := free offset rfl
              simp only [Option.getD_some]
              omega
          | none => exact Nat.le_of_eq (Nat.add_comm _ _)
        · intro other asked
          cases asked
        · intro _ other low high
          rw [Ne, packed.item_eq_none, not_not]
          exact before other low high
      refine ⟨_, slot, ?_⟩
      intro offset
      constructor
      · intro same
        rwa [← Option.some.inj same]
      · intro other
        -- Of two candidates neither can lie before the other.
        rcases Nat.lt_trichotomy offset (found.getD (1 + page.maxOffset)) with less | rfl | more
        · exact absurd other.free (chosen.least rfl _ other.low less)
        · rfl
        · exact absurd chosen.free (other.least rfl _ chosen.low more)

end Packed

/-! ## One edit -/

/-- What an edit does to a page. -/
inductive Performs (page : Page) : Edit → Outcome → Page → Prop
  | stored {item : List UInt8} {wanted : Option Nat} {offset : Nat} {after : Page}
      (chosen : page.Chosen wanted offset) (room : page.HasRoom offset item.length)
      (stored : page.Stored offset item after) :
      Performs page (.add item wanted) (.stored offset item) after
  | refused {item : List UInt8} {wanted : Option Nat}
      (full : ∀ offset, page.Chosen wanted offset → ¬ page.HasRoom offset item.length) :
      Performs page (.add item wanted) .refused page
  | deleted {offset : Nat} {after : Page} (deleted : page.Deleted offset after) :
      Performs page (.delete offset) (.deleted offset) after

namespace Performs

variable {page after : Page} {edit : Edit} {outcome : Outcome}

theorem packed (performs : page.Performs edit outcome after) (packed : page.Packed) : after.Packed := by
  cases performs with
  | stored _ _ stored => exact stored.packed
  | refused _ => exact packed
  | deleted deleted => exact deleted.packed

theorem frame (performs : page.Performs edit outcome after) : after.SameFrame page := by
  cases performs with
  | stored _ _ stored => exact stored.frame
  | refused _ => exact .refl page
  | deleted deleted => exact deleted.frame

theorem itemAt_eq (performs : page.Performs edit outcome after) :
    after.itemAt = outcome.apply page.itemAt := by
  ext1 offset
  by_cases touches : outcome.Touches offset
  · cases performs with
    | stored _ _ stored =>
        obtain rfl : offset = _ := touches
        rw [stored.itemAt_same, Outcome.apply_stored_same]
    | refused _ => exact touches.elim
    | deleted deleted =>
        obtain rfl : offset = _ := touches
        rw [deleted.itemAt_same, Outcome.apply, Function.update_self]
  · rw [Outcome.apply_of_not_touches _ touches]
    cases performs with
    | stored _ _ stored => exact stored.itemAt_other offset touches
    | refused _ => rfl
    | deleted deleted => exact deleted.itemAt_other offset touches

/-- An edit changes the item of no offset that it does not touch. -/
theorem item_other (performs : page.Performs edit outcome after) (packed : page.Packed) {offset : Nat}
    (elsewhere : ¬ outcome.Touches offset) : after.item offset = page.item offset := by
  rw [(performs.packed packed).item_eq, packed.item_eq, performs.itemAt_eq,
    Outcome.apply_of_not_touches _ elsewhere]

end Performs

/-- An edit of a packed page never fails. -/
theorem perform_spec {page : Page} (packed : page.Packed) (edit : Edit) :
    ∃ outcome after, page.perform edit = .ok (outcome, after) ∧ page.Performs edit outcome after := by
  cases edit with
  | add item wanted =>
      obtain ⟨found, slot, chosen⟩ := packed.slotFor_spec wanted
      cases found with
      | none =>
          have refused : page.addItem item wanted = .ok none := by
            simp only [addItem, packed.ready, Bool.false_eq_true, if_false, slot, bind, Except.bind, pure,
              Except.pure]
          refine ⟨.refused, page, by simp only [perform, refused, bind, Except.bind, pure, Except.pure],
            .refused ?_⟩
          intro offset here
          exact absurd ((chosen offset).mpr here).symm (Option.some_ne_none offset)
      | some offset =>
          have here := (chosen offset).mp rfl
          by_cases room : page.HasRoom offset item.length
          · have fitting : page.Fitting offset item.length := ⟨here.low, here.high, room⟩
            have added := addItem_eq packed slot fitting
            exact ⟨.stored offset item, storing packed fitting,
              by simp only [perform, added, bind, Except.bind, pure, Except.pure],
              .stored here room (stored_storing packed fitting (packed.item_eq_none.mp here.free))⟩
          · have refused := addItem_full packed slot room
            refine ⟨.refused, page, by simp only [perform, refused, bind, Except.bind, pure, Except.pure],
              .refused ?_⟩
            intro other there
            obtain rfl := Option.some.inj ((chosen other).mpr there)
            exact room
  | delete offset =>
      obtain ⟨after, eq, deleted⟩ := deleteItem_spec packed offset
      exact ⟨.deleted offset, after, by simp only [perform, eq, bind, Except.bind, pure, Except.pure],
        .deleted deleted⟩

/-! ## Sequences of edits -/

/-- Edits of a packed page never fail, and make of its items what their outcomes say. -/
theorem performAll_spec {page : Page} (packed : page.Packed) (edits : List Edit) :
    ∃ outcomes after, page.performAll edits = .ok (outcomes, after) ∧ after.Packed ∧
      after.SameFrame page ∧ after.itemAt = Outcome.applyAll page.itemAt outcomes := by
  induction edits generalizing page with
  | nil => exact ⟨[], page, rfl, packed, .refl page, rfl⟩
  | cons edit rest ih =>
      obtain ⟨outcome, next, first, performs⟩ := perform_spec packed edit
      obtain ⟨outcomes, last, others, packed', frame, items⟩ := ih (performs.packed packed)
      refine ⟨outcome :: outcomes, last, ?_, packed', frame.trans performs.frame, ?_⟩
      · simp only [performAll, first, others, bind, Except.bind, pure, Except.pure]
      · rw [items, performs.itemAt_eq]
        rfl

/-- The item of an offset is the run of `length` bytes from `start` on. -/
def ItemLies (page : Page) (offset start length : Nat) : Prop :=
  ∃ pointer, page.pointer offset = .ok pointer ∧ pointer.state = LinePointer.normal ∧
    pointer.position.toNat = start ∧ pointer.length.toNat = length

/-- The page is a map of the items that the outcomes leave, laid out in the room of an empty page. -/
structure Maps (page empty : Page) (outcomes : List Outcome) : Prop where
  item_eq : ∀ offset, page.item offset = .ok (Outcome.contents outcomes offset)
  item_eq_some : ∀ offset item, page.item offset = .ok (some item) ↔ Outcome.StoredLast outcomes offset item
  lower_le_upper : page.lower.toNat ≤ page.upper.toNat
  upper_le_special : page.upper.toNat ≤ page.special.toNat
  special_eq : page.special = empty.special
  header : page.SameOn 0 12 empty ∧ page.SameOn 16 headerSize empty
  reserved : page.SameOn empty.special.toNat pageSize empty
  lies : ∀ offset item, Outcome.contents outcomes offset = some item →
    ∃ start, page.ItemLies offset start item.length ∧ page.fetch start item.length = .ok item
  inside : ∀ offset start length, page.ItemLies offset start length → 0 < length →
    page.upper.toNat ≤ start ∧ start + length ≤ page.special.toNat
  apart : ∀ offset other start start' length length', offset ≠ other →
    page.ItemLies offset start length → 0 < length → page.ItemLies other start' length' → 0 < length' →
    start + length ≤ start' ∨ start' + length' ≤ start

theorem ItemLies.isUsed {page : Page} {offset start length : Nat} (lies : page.ItemLies offset start length)
    (packed : page.Packed) : (page.pointerAt offset).isUsed ∧
      (page.pointerAt offset).position.toNat = start ∧ (page.pointerAt offset).length.toNat = length := by
  obtain ⟨pointer, eq, state, position, length_eq⟩ := lies
  obtain rfl := Except.ok.inj ((packed.pointer_eq offset).symm.trans eq)
  refine ⟨?_, position, length_eq⟩
  rw [LinePointer.isUsed, state]
  decide

/-- The item of an offset lies where its line pointer says. -/
theorem Packed.lies {page : Page} (packed : page.Packed) {offset : Nat} {item : List UInt8}
    (found : page.itemAt offset = some item) :
    ∃ start, page.ItemLies offset start item.length ∧ page.fetch start item.length = .ok item := by
  have length := packed.length_pointerAt found
  have item_eq := packed.itemAt_eq offset
  rw [found, length] at item_eq
  split at item_eq
  · rename_i state
    refine ⟨_, ⟨_, packed.pointer_eq offset, state, rfl, length⟩, ?_⟩
    cases bytes : page.fetch (page.pointerAt offset).position.toNat item.length with
    | error fault =>
        rw [bytes] at item_eq
        cases item_eq
    | ok read =>
        rw [bytes] at item_eq
        rw [Option.some.inj item_eq]
  · cases item_eq

/-- A packed page with the frame of an empty one maps the items that it has. -/
theorem Packed.maps {empty page : Page} {outcomes : List Outcome} (packed : page.Packed)
    (frame : page.SameFrame empty) (items : page.itemAt = Outcome.contents outcomes) :
    page.Maps empty outcomes where
  item_eq := by
    intro offset
    rw [packed.item_eq, items]
  item_eq_some := by
    intro offset item
    rw [packed.item_eq, items, Except.ok.injEq]
    exact Outcome.contents_eq_some
  lower_le_upper := packed.lower_le_upper
  upper_le_special := packed.upper_le_special
  special_eq := frame.special_eq
  header := ⟨frame.front, frame.size⟩
  reserved := frame.special
  lies := by
    intro offset item found
    rw [← items] at found
    exact packed.lies found
  inside := by
    intro offset start length lies positive
    obtain ⟨used, rfl, rfl⟩ := lies.isUsed packed
    have inside := packed.inside offset used positive
    have := le_align (page.pointerAt offset).length.toNat
    omega
  apart := by
    intro offset other start start' length length' ne lies positive lies' positive'
    obtain ⟨used, rfl, rfl⟩ := lies.isUsed packed
    obtain ⟨used', rfl, rfl⟩ := lies'.isUsed packed
    have apart := packed.apart offset other ne used positive used' positive'
    have := le_align (page.pointerAt offset).length.toNat
    have := le_align (page.pointerAt other).length.toNat
    omega

/-- Every sequence of edits of an empty page makes it a map of the items stored last, and every
further edit acts on the one offset it touches. -/
theorem edited_pages_map_items {reserved : Nat} (room : headerSize + reserved ≤ pageSize)
    (edits : List Edit) :
    ∃ empty outcomes page, init reserved = .ok empty ∧ empty.performAll edits = .ok (outcomes, page) ∧
      page.Maps empty outcomes ∧
      ∀ edit, ∃ outcome after, page.perform edit = .ok (outcome, after) ∧
        page.Performs edit outcome after ∧
        ∀ offset, ¬ outcome.Touches offset → after.item offset = page.item offset := by
  obtain ⟨empty, init_eq, packed, vacant⟩ := init_spec room
  obtain ⟨outcomes, page, run, packed', frame, items⟩ := performAll_spec packed edits
  have none_first : empty.itemAt = fun _ => none := funext vacant
  rw [none_first] at items
  refine ⟨empty, outcomes, page, init_eq, run, packed'.maps frame items, ?_⟩
  intro edit
  obtain ⟨outcome, after, eq, performs⟩ := perform_spec packed' edit
  exact ⟨outcome, after, eq, performs, fun _ elsewhere => performs.item_other packed' elsewhere⟩

/-- An item is added at the smallest free offset, an empty one at the second offset, the first one is deleted, and the
next item that is added takes its place. -/
theorem edited_pages_map_items_reuse : headerSize + 8 ≤ pageSize ∧
    ∃ empty outcomes page, init 8 = .ok empty ∧
      empty.performAll [.add [1, 2] none, .add [] (some 2), .delete 1, .add [3] none] =
        .ok (outcomes, page) ∧
      page.Maps empty outcomes ∧
      ∀ edit, ∃ outcome after, page.perform edit = .ok (outcome, after) ∧
        page.Performs edit outcome after ∧
        ∀ offset, ¬ outcome.Touches offset → after.item offset = page.item offset :=
  ⟨by decide, edited_pages_map_items (by decide) _⟩

end Warehouse.Page
