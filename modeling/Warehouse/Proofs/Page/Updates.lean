import Warehouse.Proofs.Page.Items

/-! # Storing and deleting items

On a packed page an item that is stored becomes the item of an offset that had none, and
deleting makes an offset have none. The items of all other offsets, and the bytes before
the bounds and from the special area on, stay as they were. -/

namespace Warehouse.Page

/-- The pages have the same log position and the same bytes from `special` on. -/
structure SameFrame (page other : Page) : Prop where
  front : SameOn 0 12 page other
  size : SameOn 16 headerSize page other
  special : SameOn other.special.toNat pageSize page other

theorem SameFrame.special_eq {page other : Page} (h : SameFrame page other) :
    page.special = other.special :=
  h.size.special_eq (Nat.le_refl _) (by decide)

theorem SameFrame.refl (page : Page) : page.SameFrame page :=
  ⟨.refl _ _ _, .refl _ _ _, .refl _ _ _⟩

theorem SameFrame.trans {page other third : Page} (h : page.SameFrame other) (h' : other.SameFrame third) :
    page.SameFrame third := by
  have special := h.special
  rw [h'.special_eq] at special
  exact ⟨h.front.trans h'.front, h.size.trans h'.size, special.trans h'.special⟩

/-- The page with an item stored at `start` and the line pointer of `offset` set to it. -/
def withItem (page : Page) (offset start lower : Nat) (item : List UInt8)
    (fits : start + item.length ≤ pageSize) (bound : pointerPos offset + 4 ≤ pageSize) : Page :=
  (((page.patch start item fits).setUpper (UInt16.ofNat start)).setLower (UInt16.ofNat lower)).setWord32
    (pointerPos offset)
    (LinePointer.toWord ⟨UInt16.ofNat start, LinePointer.normal, UInt16.ofNat item.length⟩) bound

/-! ## Finding a free line pointer -/

namespace Packed

variable {page : Page}

theorem firstUnusedFrom_eq (packed : page.Packed) (first count : Nat) :
    ∃ found, page.firstUnusedFrom first count = .ok found ∧
      ∀ offset, found = some offset →
        first ≤ offset ∧ offset < first + count ∧ ¬ (page.pointerAt offset).isUsed := by
  induction count generalizing first with
  | zero => exact ⟨none, rfl, by simp⟩
  | succ count ih =>
      simp only [firstUnusedFrom, packed.pointer_eq first, bind, Except.bind]
      by_cases used : (page.pointerAt first).isUsed
      · obtain ⟨found, eq, spec⟩ := ih (first + 1)
        refine ⟨found, by rw [if_pos used, eq], ?_⟩
        intro offset h
        obtain ⟨low, high, free⟩ := spec offset h
        exact ⟨by omega, by omega, free⟩
      · refine ⟨some first, by rw [if_neg used]; rfl, ?_⟩
        intro offset h
        obtain rfl := Option.some.inj h
        exact ⟨Nat.le_refl _, by omega, used⟩

/-- A new item goes to an offset within the array that has none, or to the one after the
array. -/
theorem slotFor_none (packed : page.Packed) :
    ∃ offset, page.slotFor none = .ok (some offset) ∧ 1 ≤ offset ∧ offset ≤ page.maxOffset + 1 ∧
      ¬ (page.pointerAt offset).isUsed := by
  obtain ⟨found, eq, spec⟩ := packed.firstUnusedFrom_eq 1 page.maxOffset
  cases found with
  | some offset =>
      obtain ⟨low, high, free⟩ := spec offset rfl
      exact ⟨offset, by simp only [slotFor, eq, bind, Except.bind, pure, Except.pure], low, by omega,
        free⟩
  | none =>
      refine ⟨page.maxOffset + 1, by simp only [slotFor, eq, bind, Except.bind, pure, Except.pure],
        by omega, Nat.le_refl _, ?_⟩
      rw [pointerAt_outside (.inr (by omega))]
      decide

theorem slotFor_some (packed : page.Packed) {offset : Nat} (low : 1 ≤ offset)
    (high : offset ≤ page.maxOffset + 1) (free : ¬ (page.pointerAt offset).isUsed) :
    page.slotFor (some offset) = .ok (some offset) := by
  have inside : ¬ (offset = 0 ∨ page.maxOffset + 1 < offset) := by omega
  simp only [slotFor, inside, ite_false, packed.pointer_eq offset, bind, Except.bind, free,
    Bool.false_eq_true, pure, Except.pure]

end Packed

/-- Whether an item of `length` bytes can be stored at an offset. -/
def HasRoom (page : Page) (offset length : Nat) : Prop :=
  page.lower.toNat + (if page.maxOffset < offset then pointerSize else 0) + align length ≤
    page.upper.toNat

instance (page : Page) (offset length : Nat) : Decidable (page.HasRoom offset length) :=
  inferInstanceAs (Decidable (_ ≤ _))

/-- The bounds that an item and its line pointer keep when there is room for them. -/
structure Fitting (page : Page) (offset length : Nat) : Prop where
  low : 1 ≤ offset
  high : offset ≤ page.maxOffset + 1
  room : page.HasRoom offset length

namespace Fitting

variable {page : Page} {offset length : Nat}

theorem pointer_le (fitting : page.Fitting offset length) (packed : page.Packed) :
    pointerPos offset + 4 ≤
      page.lower.toNat + (if page.maxOffset < offset then pointerSize else 0) := by
  have lower := packed.lower_eq
  have low := fitting.low
  have high := fitting.high
  simp only [pointerPos, headerSize, pointerSize] at *
  split <;> omega

theorem item_le (fitting : page.Fitting offset length) (packed : page.Packed) :
    page.upper.toNat - align length + length ≤ page.special.toNat := by
  have room := fitting.room
  have := packed.upper_le_special
  have := le_align length
  simp only [HasRoom] at room
  omega

theorem pointer_fits (fitting : page.Fitting offset length) (packed : page.Packed) :
    pointerPos offset + 4 ≤ pageSize := by
  have bound := fitting.pointer_le packed
  have room := fitting.room
  have := packed.upper_le_special
  have := packed.special_le
  simp only [HasRoom] at room
  omega

theorem item_fits (fitting : page.Fitting offset length) (packed : page.Packed) :
    page.upper.toNat - align length + length ≤ pageSize :=
  Nat.le_trans (fitting.item_le packed) packed.special_le

end Fitting

/-- The page with an item stored where there is room for it. -/
def storing {page : Page} {offset : Nat} {item : List UInt8} (packed : page.Packed)
    (fitting : page.Fitting offset item.length) : Page :=
  page.withItem offset (page.upper.toNat - align item.length)
    (page.lower.toNat + if page.maxOffset < offset then pointerSize else 0) item
    (fitting.item_fits packed) (fitting.pointer_fits packed)

theorem addItem_eq {page : Page} {wanted : Option Nat} {offset : Nat} {item : List UInt8}
    (packed : page.Packed) (slot : page.slotFor wanted = .ok (some offset))
    (fitting : page.Fitting offset item.length) :
    page.addItem item wanted = .ok (some (offset, storing packed fitting)) := by
  have room : ¬ (page.upper.toNat < align item.length ∨
      page.upper.toNat - align item.length <
        page.lower.toNat + if page.maxOffset < offset then pointerSize else 0) := by
    have := fitting.room
    simp only [HasRoom] at this
    omega
  have fits := fitting.item_fits packed
  have bound := fitting.pointer_fits packed
  simp only [addItem, packed.ready, Bool.false_eq_true, if_false, slot, bind, Except.bind, room, store, fits,
    dite_true, setPointer, store32, bound, pure, Except.pure, storing, withItem]

theorem addItem_full {page : Page} {wanted : Option Nat} {offset : Nat} {item : List UInt8}
    (packed : page.Packed) (slot : page.slotFor wanted = .ok (some offset))
    (full : ¬ page.HasRoom offset item.length) : page.addItem item wanted = .ok none := by
  have room : page.upper.toNat < align item.length ∨
      page.upper.toNat - align item.length <
        page.lower.toNat + if page.maxOffset < offset then pointerSize else 0 := by
    simp only [HasRoom] at full
    omega
  simp only [addItem, packed.ready, Bool.false_eq_true, if_false, slot, bind, Except.bind, room,
    if_true, pure, Except.pure]

/-! ## Where adding an item fails -/

section Faults

variable {page : Page} {fault : Fault} {offset first count : Nat}

/-- A line pointer can be read unless the page ends before it. -/
theorem pointer_error (failed : page.pointer offset = .error fault) : fault = .outOfBounds := by
  rw [pointer] at failed
  split at failed
  · cases failed
  · rw [fetch32] at failed
    split at failed
    · cases failed
    · exact (Except.error.inj failed).symm

theorem setPointer_error {pointer : LinePointer} (failed : page.setPointer offset pointer = .error fault) :
    fault = .outOfBounds := by
  rw [setPointer, store32] at failed
  split at failed
  · cases failed
  · exact (Except.error.inj failed).symm

theorem store_error {pos : Nat} {values : List UInt8} (failed : page.store pos values = .error fault) :
    fault = .outOfBounds := by
  rw [store] at failed
  split at failed
  · cases failed
  · exact (Except.error.inj failed).symm

theorem firstUnusedFrom_error (failed : page.firstUnusedFrom first count = .error fault) : fault = .outOfBounds := by
  induction count generalizing first with
  | zero => cases failed
  | succ count ih =>
      rw [firstUnusedFrom] at failed
      cases read : page.pointer first with
      | error cause =>
          rw [read] at failed
          exact Except.error.inj failed ▸ pointer_error read
      | ok pointer =>
          rw [read] at failed
          simp only [bind, Except.bind] at failed
          split at failed
          · exact ih failed
          · cases failed

theorem slotFor_error {wanted : Option Nat} (failed : page.slotFor wanted = .error fault) : fault = .outOfBounds := by
  cases wanted with
  | none =>
      rw [slotFor] at failed
      cases found : page.firstUnusedFrom 1 page.maxOffset with
      | error cause =>
          rw [found] at failed
          exact Except.error.inj failed ▸ firstUnusedFrom_error found
      | ok offset =>
          rw [found] at failed
          cases offset <;> cases failed
  | some wanted =>
      rw [slotFor] at failed
      split at failed
      · cases failed
      · cases read : page.pointer wanted with
        | error cause =>
            rw [read] at failed
            exact Except.error.inj failed ▸ pointer_error read
        | ok pointer =>
            rw [read] at failed
            simp only [bind, Except.bind] at failed
            split at failed <;> cases failed

/-- Adding an item fails only where the page ends. -/
theorem addItem_error {item : List UInt8} {wanted : Option Nat} (failed : page.addItem item wanted = .error fault) :
    fault = .outOfBounds := by
  simp only [addItem] at failed
  split at failed
  · cases failed
  cases slot : page.slotFor wanted with
  | error cause =>
      rw [slot] at failed
      exact Except.error.inj failed ▸ slotFor_error slot
  | ok found =>
      rw [slot] at failed
      cases found with
      | none => cases failed
      | some offset =>
          simp only [bind, Except.bind] at failed
          generalize page.lower.toNat + (if page.maxOffset < offset then pointerSize else 0) = lower at failed
          split at failed
          · cases failed
          cases stored : page.store (page.upper.toNat - align item.length) item with
          | error cause =>
              rw [stored] at failed
              exact Except.error.inj failed ▸ store_error stored
          | ok filled =>
              rw [stored] at failed
              dsimp only at failed
              split at failed
              case h_1 _ cause pointed => exact Except.error.inj failed ▸ setPointer_error pointed
              case h_2 => cases failed

end Faults

/-! ## The page after storing -/

/-- What storing an item does to a page. -/
structure Stored (page : Page) (offset : Nat) (item : List UInt8) (after : Page) : Prop where
  free : page.itemAt offset = none
  packed : after.Packed
  frame : SameFrame after page
  maxOffset_eq : after.maxOffset = max page.maxOffset offset
  itemAt_same : after.itemAt offset = some item
  itemAt_other : ∀ other, other ≠ offset → after.itemAt other = page.itemAt other

section Storing

variable {page : Page} {offset : Nat} {item : List UInt8} (packed : page.Packed)
  (fitting : page.Fitting offset item.length)

theorem sameOn_storing {first last : Nat}
    (item_apart : last ≤ page.upper.toNat - align item.length ∨ page.upper.toNat ≤ first)
    (bounds_apart : last ≤ 12 ∨ 16 ≤ first)
    (pointer_apart : last ≤ pointerPos offset ∨ pointerPos offset + 4 ≤ first) :
    SameOn first last (storing packed fitting) page := by
  have room := fitting.room
  have length_le := le_align item.length
  simp only [HasRoom] at room
  rw [storing, withItem, setLower, setUpper]
  refine (sameOn_setWord32 _ _ _ _ pointer_apart).trans ?_
  refine (sameOn_setWord16 _ _ _ _ (by omega)).trans ?_
  refine (sameOn_setWord16 _ _ _ _ (by omega)).trans ?_
  exact sameOn_patch _ _ _ _ (by omega)

theorem lower_storing : (storing packed fitting).lower.toNat =
    page.lower.toNat + if page.maxOffset < offset then pointerSize else 0 := by
  have room := fitting.room
  have := packed.upper_le_special
  have := packed.special_le
  simp only [HasRoom] at room
  simp only [pageSize] at this
  rw [Page.lower, storing, withItem, word16_setWord32_apart _ _ _ _ _ _ (by
    simp only [pointerPos, headerSize]; omega), setLower, word16_setWord16_same, UInt16.toNat_ofNat']
  omega

theorem upper_storing :
    (storing packed fitting).upper.toNat = page.upper.toNat - align item.length := by
  have := page.upper.toNat_lt
  rw [Page.upper, storing, withItem, word16_setWord32_apart _ _ _ _ _ _ (by
    simp only [pointerPos, headerSize]; omega), setLower,
    word16_setWord16_apart _ _ _ _ _ _ (by omega), setUpper, word16_setWord16_same,
    UInt16.toNat_ofNat']
  omega

theorem maxOffset_storing : (storing packed fitting).maxOffset = max page.maxOffset offset := by
  have lower := lower_storing packed fitting
  have lower_eq := packed.lower_eq
  have high := fitting.high
  rw [maxOffset, lower]
  simp only [headerSize, pointerSize] at *
  split <;> omega

theorem frame_storing : SameFrame (storing packed fitting) page := by
  have room := fitting.room
  have lower_eq := packed.lower_eq
  have pointer_le := fitting.pointer_le packed
  have upper_le := packed.upper_le_special
  simp only [HasRoom] at room
  have header : headerSize ≤ pointerPos offset := Nat.le_add_right _ _
  constructor
  · exact sameOn_storing _ _ (.inl (by simp only [headerSize] at *; omega)) (.inl (by omega))
      (.inl (by simp only [headerSize] at *; omega))
  · exact sameOn_storing _ _ (.inl (by omega)) (.inr (by omega)) (.inl header)
  · exact sameOn_storing _ _ (.inr upper_le) (.inr (by simp only [headerSize] at *; omega))
      (.inr (by omega))

/-- The line pointers of the other offsets stay as they were. -/
theorem pointerAt_storing_other {other : Nat} (ne : other ≠ offset) :
    (storing packed fitting).pointerAt other = page.pointerAt other := by
  have max_eq := maxOffset_storing packed fitting
  have high := fitting.high
  have positive := fitting.low
  have room := fitting.room
  by_cases inside : 1 ≤ other ∧ other ≤ page.maxOffset
  · have bound := packed.pointer_fits inside.1 inside.2
    have here : ¬ (other = 0 ∨ page.maxOffset < other) := by omega
    have here' : ¬ (other = 0 ∨ (storing packed fitting).maxOffset < other) := by omega
    have same : (storing packed fitting).fetch32 (pointerPos other) = page.fetch32 (pointerPos other) := by
      simp only [HasRoom] at room
      apply SameOn.fetch32_eq _ (Nat.le_refl _) (Nat.le_refl _)
      apply sameOn_storing
      · omega
      · simp only [pointerPos, headerSize]
        omega
      · simp only [pointerPos, pointerSize] at *
        omega
    simp only [pointerAt, pointer, here, here', if_false, same]
  · have gone : page.pointerAt other = .unused := pointerAt_outside (by omega)
    rw [gone, pointerAt_outside (by omega)]

/-- The line pointer of the item. -/
theorem pointerAt_storing_same : (storing packed fitting).pointerAt offset =
    ⟨UInt16.ofNat ((page.upper.toNat - align item.length) % 2 ^ 15), LinePointer.normal,
      UInt16.ofNat item.length⟩ := by
  have max_eq := maxOffset_storing packed fitting
  have fits := fitting.pointer_fits packed
  have item_fits := fitting.item_fits packed
  have low := fitting.low
  have room := fitting.room
  have lower_eq := packed.lower_eq
  have length_le := le_align item.length
  have upper_le := page.upper.toNat_lt
  have here : ¬ (offset = 0 ∨ (storing packed fitting).maxOffset < offset) := by omega
  simp only [HasRoom, headerSize] at room lower_eq
  simp only [pageSize] at item_fits
  simp only [pointerAt, pointer, here, if_false, fetch32, fits, dite_true, Functor.map, Except.map]
  rw [storing, withItem, word32_setWord32_same, LinePointer.ofWord_toWord]
  simp only [LinePointer.mk.injEq, UInt16.toNat_ofNat']
  refine ⟨congrArg _ (by omega), rfl, UInt16.toNat_inj.mp ?_⟩
  rw [UInt16.toNat_ofNat', UInt16.toNat_ofNat']
  omega

theorem packed_storing (free : ¬ (page.pointerAt offset).isUsed) : (storing packed fitting).Packed := by
  have lower := lower_storing packed fitting
  have upper := upper_storing packed fitting
  have max_eq := maxOffset_storing packed fitting
  have special := congrArg UInt16.toNat (frame_storing packed fitting).special_eq
  have same := pointerAt_storing_same packed fitting
  have room := fitting.room
  have high := fitting.high
  have lower_eq := packed.lower_eq
  have upper_le := packed.upper_le_special
  have special_le := packed.special_le
  have length_le := le_align item.length
  have item_fits := fitting.item_fits packed
  simp only [HasRoom] at room
  have same_length : ((storing packed fitting).pointerAt offset).length.toNat = item.length := by
    rw [same, UInt16.toNat_ofNat']
    simp only [pageSize] at item_fits
    omega
  have same_position : 0 < item.length →
      ((storing packed fitting).pointerAt offset).position.toNat = page.upper.toNat - align item.length := by
    intro positive
    have := align_pos positive
    rw [same, UInt16.toNat_ofNat']
    simp only [pageSize] at special_le
    omega
  refine ⟨?_, by omega, by omega, by omega, ?_, ?_, ?_⟩
  · rw [lower, max_eq]
    simp only [headerSize, pointerSize] at *
    split <;> omega
  · intro other used
    by_cases eq : other = offset
    · rw [eq, same]
    · rw [pointerAt_storing_other packed fitting eq] at used ⊢
      exact packed.normal other used
  · intro other used positive
    by_cases eq : other = offset
    · subst eq
      rw [same_length] at positive ⊢
      rw [same_position positive]
      omega
    · rw [pointerAt_storing_other packed fitting eq] at used positive ⊢
      have := packed.inside other used positive
      omega
  · intro first second ne used positive used' positive'
    by_cases eq : first = offset
    · subst eq
      have ne' : second ≠ first := fun h => ne h.symm
      rw [pointerAt_storing_other packed fitting ne'] at used' positive' ⊢
      have := packed.inside second used' positive'
      rw [same_length] at positive ⊢
      rw [same_position positive]
      omega
    · rw [pointerAt_storing_other packed fitting eq] at used positive ⊢
      by_cases eq' : second = offset
      · subst eq'
        have := packed.inside first used positive
        rw [same_length] at positive' ⊢
        rw [same_position positive']
        omega
      · rw [pointerAt_storing_other packed fitting eq'] at used' positive' ⊢
        exact packed.apart first second ne used positive used' positive'

/-- The bytes of the item are where its line pointer says. -/
theorem fetch_storing_same :
    (storing packed fitting).fetch (page.upper.toNat - align item.length) item.length = .ok item := by
  have fits := fitting.item_fits packed
  have room := fitting.room
  have pointer_le := fitting.pointer_le packed
  have lower_eq := packed.lower_eq
  simp only [HasRoom, headerSize] at room lower_eq
  have apart : page.upper.toNat - align item.length + item.length ≤ pointerPos offset ∨
      pointerPos offset + 4 ≤ page.upper.toNat - align item.length := .inr (by omega)
  have bytes : (storing packed fitting).slice (page.upper.toNat - align item.length) item.length fits =
      (page.patch (page.upper.toNat - align item.length) item fits).slice
        (page.upper.toNat - align item.length) item.length fits := by
    apply SameOn.slice_eq _ (Nat.le_refl _) (Nat.le_refl _) fits
    rw [storing, withItem, setLower, setUpper]
    refine (sameOn_setWord32 _ _ _ _ apart).trans ?_
    refine (sameOn_setWord16 _ _ _ _ (.inr (by omega))).trans ?_
    exact sameOn_setWord16 _ _ _ _ (.inr (by omega))
  simp only [fetch, fits, dite_true, bytes, slice_patch_same]

theorem itemAt_storing_same (free : ¬ (page.pointerAt offset).isUsed) :
    (storing packed fitting).itemAt offset = some item := by
  have same := pointerAt_storing_same packed fitting
  have bytes := fetch_storing_same packed fitting
  have item_fits := fitting.item_fits packed
  have special_le := packed.special_le
  have upper_le := packed.upper_le_special
  have length_le := le_align item.length
  have length : (UInt16.ofNat item.length).toNat = item.length := by
    simp only [pageSize] at item_fits
    rw [UInt16.toNat_ofNat']
    omega
  rw [(packed_storing packed fitting free).itemAt_eq offset, same, if_pos rfl, length]
  by_cases empty : item.length = 0
  · obtain rfl := List.length_eq_zero_iff.mp empty
    have position : (UInt16.ofNat ((page.upper.toNat - align 0) % 2 ^ 15)).toNat + 0 ≤ pageSize := by
      rw [UInt16.toNat_ofNat']
      simp only [pageSize]
      omega
    simp only [List.length_nil, fetch, position, dite_true, slice, List.ofFn_zero, Except.toOption]
  · have := align_pos (Nat.pos_of_ne_zero empty)
    have position : (UInt16.ofNat ((page.upper.toNat - align item.length) % 2 ^ 15)).toNat =
        page.upper.toNat - align item.length := by
      simp only [pageSize] at special_le
      rw [UInt16.toNat_ofNat']
      omega
    rw [position, bytes]
    rfl

theorem itemAt_storing_other (free : ¬ (page.pointerAt offset).isUsed) {other : Nat}
    (ne : other ≠ offset) : (storing packed fitting).itemAt other = page.itemAt other := by
  have room := fitting.room
  have lower_eq := packed.lower_eq
  have pointer_le := fitting.pointer_le packed
  simp only [HasRoom, headerSize] at room lower_eq
  rw [(packed_storing packed fitting free).itemAt_eq other, packed.itemAt_eq other,
    pointerAt_storing_other packed fitting ne]
  split
  · rename_i state
    have used : (page.pointerAt other).isUsed := by
      rw [LinePointer.isUsed, state]
      decide
    refine congrArg Except.toOption (SameOn.fetch_eq ?_ (Nat.le_refl _) (Nat.le_refl _))
    by_cases empty : (page.pointerAt other).length.toNat = 0
    · intro pos _ low high
      omega
    · have inside := packed.inside other used (Nat.pos_of_ne_zero empty)
      exact sameOn_storing packed fitting (.inr inside.1) (.inr (by omega)) (.inr (by omega))
  · rfl

/-- Storing an item where there is room for it. -/
theorem stored_storing (free : ¬ (page.pointerAt offset).isUsed) :
    Stored page offset item (storing packed fitting) where
  free := packed.itemAt_eq_none.mpr free
  packed := packed_storing packed fitting free
  frame := frame_storing packed fitting
  maxOffset_eq := maxOffset_storing packed fitting
  itemAt_same := itemAt_storing_same packed fitting free
  itemAt_other := fun _ ne => itemAt_storing_other packed fitting free ne

end Storing

/-- Storing an item at the first free offset: it goes there, or there is no room. The
same page results when the offset is asked for. -/
theorem addItem_spec {page : Page} (item : List UInt8) (packed : page.Packed) :
    (∃ offset after, page.addItem item none = .ok (some (offset, after)) ∧
      page.addItem item (some offset) = .ok (some (offset, after)) ∧ 1 ≤ offset ∧
      offset ≤ page.maxOffset + 1 ∧ Stored page offset item after) ∨
    (page.addItem item none = .ok none ∧
      page.upper.toNat < page.lower.toNat + pointerSize + align item.length) := by
  obtain ⟨offset, slot, low, high, free⟩ := packed.slotFor_none
  by_cases room : page.HasRoom offset item.length
  · left
    have fitting : page.Fitting offset item.length := ⟨low, high, room⟩
    exact ⟨offset, _, addItem_eq packed slot fitting,
      addItem_eq packed (packed.slotFor_some low high free) fitting, low, high,
      stored_storing packed fitting free⟩
  · right
    refine ⟨addItem_full packed slot room, ?_⟩
    simp only [HasRoom, pointerSize] at room ⊢
    split at room <;> omega

/-- An item that fits is stored, unless it is empty. -/
theorem addItem_of_fits {page : Page} {item : List UInt8} (packed : page.Packed)
    (fits : page.fits item.length) (nonempty : 0 < item.length) :
    ∃ offset after, page.addItem item none = .ok (some (offset, after)) ∧
      page.addItem item (some offset) = .ok (some (offset, after)) ∧ 1 ≤ offset ∧
      offset ≤ page.maxOffset + 1 ∧ Stored page offset item after := by
  simp only [Page.fits, freeSpace, Bool.and_eq_true] at fits
  rcases addItem_spec item packed with stored | ⟨-, full⟩
  · exact stored
  · have := align_pos nonempty
    have := of_decide_eq_true fits.2
    simp only [pointerSize] at *
    omega

/-! ## Deleting -/

/-- What deleting an item does to a page. -/
structure Deleted (page : Page) (offset : Nat) (after : Page) : Prop where
  packed : after.Packed
  frame : SameFrame after page
  itemAt_same : after.itemAt offset = none
  itemAt_other : ∀ other, other ≠ offset → after.itemAt other = page.itemAt other

/-- Whether the item at an offset is the one that lies lowest. -/
def isLowest (page : Page) (offset : Nat) : Bool :=
  (page.pointerAt offset).isUsed && (page.pointerAt offset).position == page.upper

/-- The page with the room of the item at an offset reclaimed, if it lies lowest. -/
def reclaiming (page : Page) (offset : Nat) : Page :=
  if page.isLowest offset then
    page.setUpper (UInt16.ofNat (page.upper.toNat + align (page.pointerAt offset).length.toNat))
  else page

/-- The page with the line pointer of an offset unused, and dropped if it is the last. -/
def withoutItem (page : Page) (offset : Nat) (bound : pointerPos offset + 4 ≤ pageSize) : Page :=
  let cleared := (page.reclaiming offset).setWord32 (pointerPos offset) LinePointer.unused.toWord bound
  if offset = page.maxOffset then cleared.setLower (UInt16.ofNat (cleared.lower.toNat - pointerSize))
  else cleared

section Deleting

variable {page : Page} {offset : Nat}

theorem deleteItem_eq (packed : page.Packed) (low : 1 ≤ offset) (high : offset ≤ page.maxOffset)
    (bound : pointerPos offset + 4 ≤ pageSize) :
    page.deleteItem offset = .ok (page.withoutItem offset bound) := by
  have inside : ¬ (offset = 0 ∨ page.maxOffset < offset) := by omega
  simp only [deleteItem, inside, if_false, packed.pointer_eq offset, bind, Except.bind, setPointer,
    store32, bound, dite_true, pure, Except.pure, withoutItem, reclaiming, isLowest]
  split <;> rfl

theorem sameOn_reclaiming {first last : Nat} (apart : last ≤ 14 ∨ 16 ≤ first) :
    SameOn first last (page.reclaiming offset) page := by
  rw [reclaiming]
  split
  · exact sameOn_setWord16 _ _ _ _ apart
  · exact .refl _ _ _

theorem sameOn_withoutItem (bound : pointerPos offset + 4 ≤ pageSize) {first last : Nat}
    (bounds_apart : last ≤ 12 ∨ 16 ≤ first)
    (pointer_apart : last ≤ pointerPos offset ∨ pointerPos offset + 4 ≤ first) :
    SameOn first last (page.withoutItem offset bound) page := by
  have cleared : SameOn first last ((page.reclaiming offset).setWord32 (pointerPos offset)
      LinePointer.unused.toWord bound) page :=
    (sameOn_setWord32 _ _ _ _ pointer_apart).trans (sameOn_reclaiming (by omega))
  simp only [withoutItem]
  split
  · exact (sameOn_setWord16 _ _ _ _ (by omega)).trans cleared
  · exact cleared

theorem lower_withoutItem (page : Page) (bound : pointerPos offset + 4 ≤ pageSize) :
    (page.withoutItem offset bound).lower.toNat =
      if offset = page.maxOffset then page.lower.toNat - pointerSize else page.lower.toNat := by
  have apart : 14 ≤ pointerPos offset ∨ pointerPos offset + 4 ≤ 12 := by
    simp only [pointerPos, headerSize]
    omega
  have cleared : ((page.reclaiming offset).setWord32 (pointerPos offset) LinePointer.unused.toWord
      bound).lower = page.lower :=
    ((sameOn_setWord32 _ _ _ _ apart).trans (sameOn_reclaiming (.inl (Nat.le_refl _)))).lower_eq
      (Nat.le_refl _) (Nat.le_refl _)
  have := page.lower.toNat_lt
  simp only [withoutItem, cleared]
  split
  · rw [Page.lower, setLower, word16_setWord16_same, UInt16.toNat_ofNat']
    omega
  · rw [cleared]

theorem maxOffset_withoutItem (packed : page.Packed) (low : 1 ≤ offset) (high : offset ≤ page.maxOffset)
    (bound : pointerPos offset + 4 ≤ pageSize) :
    (page.withoutItem offset bound).maxOffset =
      if offset = page.maxOffset then page.maxOffset - 1 else page.maxOffset := by
  have lower_eq := packed.lower_eq
  rw [maxOffset, lower_withoutItem]
  simp only [headerSize, pointerSize] at *
  split <;> omega

theorem upper_withoutItem (packed : page.Packed) (bound : pointerPos offset + 4 ≤ pageSize) :
    (page.withoutItem offset bound).upper.toNat =
      if page.isLowest offset then
        page.upper.toNat + align (page.pointerAt offset).length.toNat
      else page.upper.toNat := by
  have apart : 16 ≤ pointerPos offset ∨ pointerPos offset + 4 ≤ 14 := by
    simp only [pointerPos, headerSize]
    omega
  have same : (page.withoutItem offset bound).upper = (page.reclaiming offset).upper := by
    have cleared := (sameOn_setWord32 (page.reclaiming offset) (pointerPos offset)
      LinePointer.unused.toWord bound apart).upper_eq (Nat.le_refl _) (Nat.le_refl _)
    simp only [withoutItem]
    split
    · rw [← cleared]
      exact (sameOn_setWord16 _ _ _ _ (.inr (Nat.le_refl _))).upper_eq (Nat.le_refl _) (Nat.le_refl _)
    · exact cleared
  rw [same, reclaiming]
  split
  · rename_i lowest
    simp only [isLowest, Bool.and_eq_true, beq_iff_eq] at lowest
    have special_le := packed.special_le
    have upper_le := packed.upper_le_special
    have inside := packed.inside offset lowest.1
    rw [Page.upper, setUpper, word16_setWord16_same, UInt16.toNat_ofNat']
    rw [lowest.2] at inside
    simp only [pageSize] at special_le
    by_cases empty : (page.pointerAt offset).length.toNat = 0
    · simp only [empty, align]
      omega
    · have := inside (Nat.pos_of_ne_zero empty)
      omega
  · rfl

variable (packed : page.Packed) (low : 1 ≤ offset) (high : offset ≤ page.maxOffset)
  (bound : pointerPos offset + 4 ≤ pageSize)
include packed low high

theorem pointerAt_withoutItem_same : (page.withoutItem offset bound).pointerAt offset = .unused := by
  have max_eq := maxOffset_withoutItem packed low high bound
  by_cases last : offset = page.maxOffset
  · rw [if_pos last] at max_eq
    exact pointerAt_outside (.inr (by omega))
  · rw [if_neg last] at max_eq
    have inside : ¬ (offset = 0 ∨ (page.withoutItem offset bound).maxOffset < offset) := by omega
    simp only [pointerAt, pointer, inside, if_false, fetch32, bound, dite_true, Functor.map, Except.map]
    simp only [withoutItem, last, if_false, word32_setWord32_same, LinePointer.ofWord_unused]

theorem pointerAt_withoutItem_other {other : Nat} (ne : other ≠ offset) :
    (page.withoutItem offset bound).pointerAt other = page.pointerAt other := by
  have max_eq := maxOffset_withoutItem packed low high bound
  by_cases inside : 1 ≤ other ∧ other ≤ page.maxOffset
  · have here : ¬ (other = 0 ∨ page.maxOffset < other) := by omega
    have here' : ¬ (other = 0 ∨ (page.withoutItem offset bound).maxOffset < other) := by
      split at max_eq <;> omega
    have same : (page.withoutItem offset bound).fetch32 (pointerPos other) =
        page.fetch32 (pointerPos other) := by
      apply SameOn.fetch32_eq _ (Nat.le_refl _) (Nat.le_refl _)
      apply sameOn_withoutItem
      · simp only [pointerPos, headerSize]
        omega
      · simp only [pointerPos, pointerSize]
        omega
    simp only [pointerAt, pointer, here, here', if_false, same]
  · have gone : page.pointerAt other = .unused := pointerAt_outside (by omega)
    rw [gone, pointerAt_outside (by split at max_eq <;> omega)]

theorem frame_withoutItem : SameFrame (page.withoutItem offset bound) page := by
  have lower_eq := packed.lower_eq
  have pointer_le := packed.pointer_fits low high
  have lower_le := packed.lower_le_upper
  have upper_le := packed.upper_le_special
  have header : headerSize ≤ pointerPos offset := Nat.le_add_right _ _
  constructor
  · exact sameOn_withoutItem _ (.inl (Nat.le_refl _)) (.inl (by simp only [headerSize] at *; omega))
  · exact sameOn_withoutItem _ (.inr (Nat.le_refl _)) (.inl header)
  · exact sameOn_withoutItem _ (.inr (by simp only [headerSize] at *; omega)) (.inr (by omega))

omit low high in
/-- The items other than the lowest lie above the room that is reclaimed with it. -/
theorem above_lowest {other : Nat} (ne : other ≠ offset) (used : (page.pointerAt other).isUsed)
    (positive : 0 < (page.pointerAt other).length.toNat) :
    (page.withoutItem offset bound).upper.toNat ≤ (page.pointerAt other).position.toNat := by
  have inside := packed.inside other used positive
  have positive' := align_pos positive
  rw [upper_withoutItem packed]
  split
  · rename_i lowest
    simp only [isLowest, Bool.and_eq_true, beq_iff_eq] at lowest
    by_cases empty : (page.pointerAt offset).length.toNat = 0
    · simp only [empty, align]
      omega
    · have apart := packed.apart offset other (fun eq => ne eq.symm) lowest.1 (Nat.pos_of_ne_zero empty)
        used positive
      rw [lowest.2] at apart
      omega
  · exact inside.1

theorem packed_withoutItem : (page.withoutItem offset bound).Packed := by
  have lower := page.lower_withoutItem bound
  have max_eq := maxOffset_withoutItem packed low high bound
  have special := congrArg UInt16.toNat (frame_withoutItem packed low high bound).special_eq
  have lower_eq := packed.lower_eq
  have lower_le := packed.lower_le_upper
  have upper_le := packed.upper_le_special
  have same := pointerAt_withoutItem_same packed low high bound
  have upper : page.upper.toNat ≤ (page.withoutItem offset bound).upper.toNat ∧
      (page.withoutItem offset bound).upper.toNat ≤ page.special.toNat := by
    rw [upper_withoutItem packed]
    split
    · rename_i lowest
      simp only [isLowest, Bool.and_eq_true, beq_iff_eq] at lowest
      by_cases empty : (page.pointerAt offset).length.toNat = 0
      · simp only [empty, align]
        omega
      · have inside := packed.inside offset lowest.1 (Nat.pos_of_ne_zero empty)
        rw [lowest.2] at inside
        omega
    · omega
  have ne_of_used : ∀ other, ((page.withoutItem offset bound).pointerAt other).isUsed → other ≠ offset := by
    rintro other used rfl
    rw [same] at used
    exact absurd used (by decide)
  refine ⟨?_, ?_, by omega, by have := packed.special_le; omega, ?_, ?_, ?_⟩
  · rw [lower, max_eq]
    simp only [headerSize, pointerSize] at *
    split <;> omega
  · rw [lower]
    split <;> omega
  · intro other used
    have ne := ne_of_used other used
    rw [pointerAt_withoutItem_other packed low high bound ne] at used ⊢
    exact packed.normal other used
  · intro other used positive
    have ne := ne_of_used other used
    rw [pointerAt_withoutItem_other packed low high bound ne] at used positive ⊢
    refine ⟨above_lowest packed bound ne used positive, ?_⟩
    rw [special]
    exact (packed.inside other used positive).2
  · intro first second ne used positive used' positive'
    have first_ne := ne_of_used first used
    have second_ne := ne_of_used second used'
    rw [pointerAt_withoutItem_other packed low high bound first_ne] at used positive ⊢
    rw [pointerAt_withoutItem_other packed low high bound second_ne] at used' positive' ⊢
    exact packed.apart first second ne used positive used' positive'

theorem itemAt_withoutItem_other {other : Nat} (ne : other ≠ offset) :
    (page.withoutItem offset bound).itemAt other = page.itemAt other := by
  have lower_eq := packed.lower_eq
  have lower_le := packed.lower_le_upper
  have pointer_le := packed.pointer_fits low high
  rw [(packed_withoutItem packed low high bound).itemAt_eq other, packed.itemAt_eq other,
    pointerAt_withoutItem_other packed low high bound ne]
  split
  · rename_i state
    have used : (page.pointerAt other).isUsed := by
      rw [LinePointer.isUsed, state]
      decide
    refine congrArg Except.toOption (SameOn.fetch_eq ?_ (Nat.le_refl _) (Nat.le_refl _))
    by_cases empty : (page.pointerAt other).length.toNat = 0
    · intro pos _ low' high'
      omega
    · have inside := packed.inside other used (Nat.pos_of_ne_zero empty)
      simp only [headerSize] at lower_eq
      exact sameOn_withoutItem bound (.inr (by omega)) (.inr (by omega))
  · rfl

/-- Deleting the item at an offset of the array. -/
theorem deleted_withoutItem : Deleted page offset (page.withoutItem offset bound) where
  packed := packed_withoutItem packed low high bound
  frame := frame_withoutItem packed low high bound
  itemAt_same := by
    rw [(packed_withoutItem packed low high bound).itemAt_eq_none,
      pointerAt_withoutItem_same packed low high bound]
    decide
  itemAt_other := fun _ ne => itemAt_withoutItem_other packed low high bound ne

end Deleting

/-- Deleting never fails on a packed page. -/
theorem deleteItem_spec {page : Page} (packed : page.Packed) (offset : Nat) :
    ∃ after, page.deleteItem offset = .ok after ∧ Deleted page offset after := by
  by_cases inside : 1 ≤ offset ∧ offset ≤ page.maxOffset
  · have bound : pointerPos offset + 4 ≤ pageSize :=
      Nat.le_trans (packed.pointer_fits inside.1 inside.2) packed.lower_le
    exact ⟨_, deleteItem_eq packed inside.1 inside.2 bound,
      deleted_withoutItem packed inside.1 inside.2 bound⟩
  · have outside : offset = 0 ∨ page.maxOffset < offset := by omega
    refine ⟨page, by simp only [deleteItem, outside, if_true, pure, Except.pure], packed,
      .refl page, ?_, fun _ _ => rfl⟩
    rw [packed.itemAt_eq_none, pointerAt_outside outside]
    decide

/-- Deleting an item and replacing a word of the special area may be done in any order. -/
theorem deleteItem_setWord16 {page : Page} {pos : Nat} {value : UInt16} (high : pos + 2 ≤ pageSize)
    (packed : page.Packed) (special : page.special.toNat ≤ pos) (offset : Nat) :
    (page.setWord16 pos value high).deleteItem offset =
      (fun page => page.setWord16 pos value high) <$> page.deleteItem offset := by
  have lower_eq := packed.lower_eq
  have lower_le := packed.lower_le_upper
  have upper_le := packed.upper_le_special
  simp only [headerSize] at lower_eq
  have lower : (page.setWord16 pos value high).lower = page.lower := lower_setWord16 high (by omega)
  have upper : (page.setWord16 pos value high).upper = page.upper := upper_setWord16 high (by omega)
  have last : (page.setWord16 pos value high).maxOffset = page.maxOffset := by rw [maxOffset, maxOffset, lower]
  by_cases outside : offset = 0 ∨ page.maxOffset < offset
  · simp only [deleteItem, last, outside, if_true]
    rfl
  · have bound : pointerPos offset + 4 ≤ page.lower.toNat := packed.pointer_fits (by omega) (by omega)
    have fits : pointerPos offset + 4 ≤ pageSize := by omega
    have same : SameOn 0 pos (page.setWord16 pos value high) page := sameOn_setWord16 _ _ _ _ (.inl (Nat.le_refl _))
    have packed' := (packed.congr (same.mono (Nat.zero_le _) special)).1
    have pointer : (page.setWord16 pos value high).pointerAt offset = page.pointerAt offset := by
      have read := same.fetch32_eq (Nat.zero_le (pointerPos offset)) (by omega)
      simp only [pointerAt, Page.pointer, last, read]
    have reclaimed : (page.setWord16 pos value high).reclaiming offset =
        (page.reclaiming offset).setWord16 pos value high := by
      have lowest : (page.setWord16 pos value high).isLowest offset = page.isLowest offset := by
        rw [isLowest, isLowest, pointer, upper]
      rw [reclaiming, reclaiming, lowest, pointer, upper]
      split
      · exact setWord16_comm high page (show 14 + 2 ≤ pageSize by decide) (by omega)
      · rfl
    rw [deleteItem_eq packed' (by omega) (by omega) fits, deleteItem_eq packed (by omega) (by omega) fits]
    refine congrArg Except.ok ?_
    simp only [withoutItem, reclaimed, last]
    rw [setWord16_setWord32_comm high _ fits (by omega)]
    split
    · rw [lower_setWord16 high (by omega)]
      exact setWord16_comm high _ _ (by omega)
    · rfl

end Warehouse.Page
