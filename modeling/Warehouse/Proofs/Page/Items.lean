import Warehouse.Proofs.Page.Access

/-! # Pages as finite maps of items

On a packed page every taken line pointer names a run of its own between `upper` and the
special area. Such a page is a finite map from offsets to items, `itemAt`. `addItem_spec`
and `deleteItem_spec` say how the two changes act on the map, and that they leave the
rest of the page alone. -/

namespace Warehouse.LinePointer

theorem position_ofWord_lt (word : UInt32) : (ofWord word).position.toNat < 2 ^ 15 := by
  have : word.toNat % 2 ^ 15 < 2 ^ 15 := Nat.mod_lt _ (by decide)
  simp only [ofWord, UInt16.toNat_ofNat']
  omega

theorem length_ofWord_lt (word : UInt32) : (ofWord word).length.toNat < 2 ^ 15 := by
  have small := word.toNat_lt
  simp only [ofWord, UInt16.toNat_ofNat']
  omega

/-- A stored line pointer keeps the low bits of its fields. -/
theorem ofWord_toWord (pointer : LinePointer) :
    ofWord pointer.toWord = ⟨UInt16.ofNat (pointer.position.toNat % 2 ^ 15),
      UInt8.ofNat (pointer.state.toNat % 4), UInt16.ofNat (pointer.length.toNat % 2 ^ 15)⟩ := by
  simp only [toWord, ofWord, UInt32.toNat_ofNat', LinePointer.mk.injEq]
  refine ⟨UInt16.toNat_inj.mp ?_, UInt8.toNat_inj.mp ?_, UInt16.toNat_inj.mp ?_⟩
  · rw [UInt16.toNat_ofNat', UInt16.toNat_ofNat']
    omega
  · rw [UInt8.toNat_ofNat', UInt8.toNat_ofNat']
    omega
  · rw [UInt16.toNat_ofNat', UInt16.toNat_ofNat']
    omega

@[simp]
theorem isUsed_unused : unused.isUsed = false := rfl

@[simp]
theorem ofWord_unused : ofWord unused.toWord = unused := rfl

end Warehouse.LinePointer

namespace Warehouse.Page

theorem le_align (length : Nat) : length ≤ align length := by
  rw [align]
  omega

theorem align_pos {length : Nat} (h : 0 < length) : 0 < align length := by
  rw [align]
  omega

/-- The line pointer of an offset; an unreadable one counts as unused. -/
def pointerAt (page : Page) (offset : Nat) : LinePointer :=
  match page.pointer offset with
  | .ok pointer => pointer
  | .error _ => .unused

/-- The item at an offset; an unreadable one counts as none. -/
def itemAt (page : Page) (offset : Nat) : Option (List UInt8) :=
  match page.item offset with
  | .ok found => found
  | .error _ => none

/-- The items of the page lie apart from each other, from the line pointers and from the
special area. -/
structure Packed (page : Page) : Prop where
  lower_eq : page.lower.toNat = headerSize + page.maxOffset * pointerSize
  lower_le_upper : page.lower.toNat ≤ page.upper.toNat
  upper_le_special : page.upper.toNat ≤ page.special.toNat
  special_le : page.special.toNat ≤ pageSize
  normal : ∀ offset, (page.pointerAt offset).isUsed → (page.pointerAt offset).state = LinePointer.normal
  inside : ∀ offset, (page.pointerAt offset).isUsed → 0 < (page.pointerAt offset).length.toNat →
    page.upper.toNat ≤ (page.pointerAt offset).position.toNat ∧
      (page.pointerAt offset).position.toNat + align (page.pointerAt offset).length.toNat ≤
        page.special.toNat
  apart : ∀ offset other, offset ≠ other →
    (page.pointerAt offset).isUsed → 0 < (page.pointerAt offset).length.toNat →
    (page.pointerAt other).isUsed → 0 < (page.pointerAt other).length.toNat →
    (page.pointerAt offset).position.toNat + align (page.pointerAt offset).length.toNat ≤
        (page.pointerAt other).position.toNat ∨
      (page.pointerAt other).position.toNat + align (page.pointerAt other).length.toNat ≤
        (page.pointerAt offset).position.toNat

theorem pointerAt_outside {page : Page} {offset : Nat} (h : offset = 0 ∨ page.maxOffset < offset) :
    page.pointerAt offset = .unused := by
  simp only [pointerAt, pointer, h, ite_true]

theorem position_pointerAt_lt (page : Page) (offset : Nat) :
    (page.pointerAt offset).position.toNat < 2 ^ 15 := by
  by_cases outside : offset = 0 ∨ page.maxOffset < offset
  · rw [pointerAt_outside outside]
    decide
  · simp only [pointerAt, pointer, outside, ite_false, fetch32]
    by_cases fits : pointerPos offset + 4 ≤ pageSize
    · simp only [fits, dite_true, Functor.map, Except.map]
      exact LinePointer.position_ofWord_lt _
    · simp only [fits, dite_false, Functor.map, Except.map]
      decide

/-- The offset of a taken line pointer lies within the array. -/
theorem offset_of_isUsed {page : Page} {offset : Nat} (h : (page.pointerAt offset).isUsed) :
    1 ≤ offset ∧ offset ≤ page.maxOffset := by
  by_cases outside : offset = 0 ∨ page.maxOffset < offset
  · rw [pointerAt_outside outside] at h
    exact absurd h (by decide)
  · omega

namespace Packed

variable {page : Page}

theorem pointer_fits (packed : page.Packed) {offset : Nat} (low : 1 ≤ offset)
    (high : offset ≤ page.maxOffset) : pointerPos offset + 4 ≤ page.lower.toNat := by
  have lower := packed.lower_eq
  simp only [pointerPos, headerSize, pointerSize] at *
  omega

theorem lower_le (packed : page.Packed) : page.lower.toNat ≤ pageSize :=
  Nat.le_trans (Nat.le_trans packed.lower_le_upper packed.upper_le_special) packed.special_le

/-- A packed page was initialised. -/
theorem ready (packed : page.Packed) : page.isNew = false := by
  have lower := packed.lower_eq
  have upper := packed.lower_le_upper
  rw [isNew, beq_eq_false_iff_ne]
  intro zero
  rw [zero] at upper
  simp only [headerSize, UInt16.toNat_zero] at lower upper
  omega

theorem pointer_eq (packed : page.Packed) (offset : Nat) :
    page.pointer offset = .ok (page.pointerAt offset) := by
  by_cases outside : offset = 0 ∨ page.maxOffset < offset
  · rw [pointerAt_outside outside]
    simp only [pointer, outside, ite_true]
  · have fits : pointerPos offset + 4 ≤ pageSize :=
      Nat.le_trans (packed.pointer_fits (by omega) (by omega)) packed.lower_le
    simp only [pointerAt, pointer, outside, ite_false, fetch32, fits, dite_true, Functor.map, Except.map]

theorem item_eq (packed : page.Packed) (offset : Nat) :
    page.item offset = .ok (page.itemAt offset) := by
  have pointer := packed.pointer_eq offset
  by_cases used : (page.pointerAt offset).isUsed
  · have normal := packed.normal offset used
    have fits : (page.pointerAt offset).position.toNat + (page.pointerAt offset).length.toNat ≤ pageSize := by
      by_cases empty : (page.pointerAt offset).length.toNat = 0
      · have := page.position_pointerAt_lt offset
        simp only [pageSize]
        omega
      · have inside := packed.inside offset used (by omega)
        have := le_align (page.pointerAt offset).length.toNat
        have := packed.special_le
        omega
    simp only [itemAt, item, pointer, bind, Except.bind, normal, ite_true, fetch, fits, dite_true,
      Functor.map, Except.map]
  · have state : (page.pointerAt offset).state ≠ LinePointer.normal := by
      intro eq
      rw [LinePointer.isUsed, eq] at used
      exact used (by decide)
    simp only [itemAt, item, pointer, bind, Except.bind, state, ite_false, pure, Except.pure]

/-- An offset has an item when its line pointer is taken. -/
theorem isSome_itemAt (packed : page.Packed) (offset : Nat) :
    (page.itemAt offset).isSome = (page.pointerAt offset).isUsed := by
  have item := packed.item_eq offset
  rw [Page.item, packed.pointer_eq offset] at item
  simp only [bind, Except.bind, pure, Except.pure] at item
  by_cases used : (page.pointerAt offset).isUsed
  · rw [if_pos (packed.normal offset used)] at item
    cases bytes : page.fetch (page.pointerAt offset).position.toNat (page.pointerAt offset).length.toNat with
    | ok found =>
        simp only [bytes, Functor.map, Except.map, Except.ok.injEq] at item
        rw [← item, used]
        rfl
    | error fault =>
        simp only [bytes, Functor.map, Except.map, reduceCtorEq] at item
  · have state : (page.pointerAt offset).state ≠ LinePointer.normal := by
      intro eq
      rw [LinePointer.isUsed, eq] at used
      exact used (by decide)
    rw [if_neg state] at item
    rw [← Except.ok.inj item, Bool.not_eq_true _ |>.mp used]
    rfl

theorem itemAt_eq (packed : page.Packed) (offset : Nat) :
    page.itemAt offset =
      if (page.pointerAt offset).state = LinePointer.normal then
        (page.fetch (page.pointerAt offset).position.toNat
          (page.pointerAt offset).length.toNat).toOption
      else none := by
  have item := packed.item_eq offset
  rw [Page.item, packed.pointer_eq offset] at item
  simp only [bind, Except.bind, pure, Except.pure] at item
  split at item
  · rename_i state
    rw [if_pos state]
    cases bytes : page.fetch (page.pointerAt offset).position.toNat (page.pointerAt offset).length.toNat with
    | ok found =>
        rw [bytes] at item
        exact (Except.ok.inj item).symm
    | error fault =>
        rw [bytes] at item
        cases item
  · rename_i state
    rw [if_neg state]
    exact (Except.ok.inj item).symm

theorem itemAt_eq_none (packed : page.Packed) {offset : Nat} :
    page.itemAt offset = none ↔ ¬ (page.pointerAt offset).isUsed := by
  rw [← packed.isSome_itemAt offset, ← Option.not_isSome_iff_eq_none]

theorem offset_of_itemAt (packed : page.Packed) {offset : Nat} {bytes : List UInt8}
    (h : page.itemAt offset = some bytes) : 1 ≤ offset ∧ offset ≤ page.maxOffset :=
  offset_of_isUsed (by rw [← packed.isSome_itemAt, h]; rfl)

/-- The line pointer of an item has its length. -/
theorem length_pointerAt (packed : page.Packed) {offset : Nat} {bytes : List UInt8}
    (h : page.itemAt offset = some bytes) : (page.pointerAt offset).length.toNat = bytes.length := by
  have used : (page.pointerAt offset).isUsed := by
    rw [← packed.isSome_itemAt, h]
    rfl
  have item := packed.itemAt_eq offset
  rw [h, if_pos (packed.normal offset used)] at item
  simp only [Page.fetch] at item
  split at item
  · obtain rfl := Option.some.inj item
    simp
  · cases item

/-- A packed page stays packed, with the same items, when only its log position and its
special area change. -/
theorem congr (packed : page.Packed) {after : Page} (h : SameOn 8 page.special.toNat after page) :
    after.Packed ∧ after.special = page.special ∧ after.maxOffset = page.maxOffset ∧
      ∀ offset, after.itemAt offset = page.itemAt offset := by
  have lower_eq := packed.lower_eq
  have lower_le := packed.lower_le_upper
  have upper_le := packed.upper_le_special
  simp only [headerSize] at lower_eq
  have lower : after.lower = page.lower := h.lower_eq (by omega) (by omega)
  have upper : after.upper = page.upper := h.upper_eq (by omega) (by omega)
  have special : after.special = page.special := h.special_eq (by omega) (by omega)
  have max_eq : after.maxOffset = page.maxOffset := by rw [maxOffset, maxOffset, lower]
  have pointer : ∀ offset, after.pointerAt offset = page.pointerAt offset := by
    intro offset
    by_cases outside : offset = 0 ∨ page.maxOffset < offset
    · rw [pointerAt_outside outside, pointerAt_outside (by rw [max_eq]; exact outside)]
    · have outside' : ¬ (offset = 0 ∨ after.maxOffset < offset) := by rw [max_eq]; exact outside
      have bound : pointerPos offset + 4 ≤ page.lower.toNat := packed.pointer_fits (by omega) (by omega)
      have positive : headerSize ≤ pointerPos offset := Nat.le_add_right _ _
      simp only [headerSize] at positive
      have same : after.fetch32 (pointerPos offset) = page.fetch32 (pointerPos offset) :=
        h.fetch32_eq (by omega) (by omega)
      simp only [pointerAt, Page.pointer, outside, outside', if_false, same]
  have packed' : after.Packed := by
    constructor
    · rw [lower, max_eq, packed.lower_eq]
    · rw [lower, upper]
      exact lower_le
    · rw [upper, special]
      exact upper_le
    · rw [special]
      exact packed.special_le
    · intro offset used
      rw [pointer] at used ⊢
      exact packed.normal offset used
    · intro offset used positive
      rw [pointer] at used positive ⊢
      rw [upper, special]
      exact packed.inside offset used positive
    · intro offset other ne used positive used' positive'
      rw [pointer] at used positive ⊢
      rw [pointer] at used' positive' ⊢
      exact packed.apart offset other ne used positive used' positive'
  refine ⟨packed', special, max_eq, fun offset => ?_⟩
  rw [packed'.itemAt_eq, packed.itemAt_eq, pointer]
  split
  · rename_i state
    have used : (page.pointerAt offset).isUsed := by
      rw [LinePointer.isUsed, state]
      decide
    refine congrArg Except.toOption (SameOn.fetch_eq ?_ (Nat.le_refl _) (Nat.le_refl _))
    by_cases empty : (page.pointerAt offset).length.toNat = 0
    · intro pos _ low high
      omega
    · have inside := packed.inside offset used (Nat.pos_of_ne_zero empty)
      have := le_align (page.pointerAt offset).length.toNat
      exact h.mono (by omega) (by omega)
  · rfl

theorem anyUsedFrom_eq (packed : page.Packed) (first count : Nat) :
    ∃ any, page.anyUsedFrom first count = .ok any ∧
      (any = true ↔ ∃ offset, first ≤ offset ∧ offset < first + count ∧ (page.itemAt offset).isSome) := by
  induction count generalizing first with
  | zero => exact ⟨false, rfl, by simp; omega⟩
  | succ count ih =>
      obtain ⟨any, eq, iff⟩ := ih (first + 1)
      simp only [anyUsedFrom, packed.pointer_eq first, bind, Except.bind]
      by_cases used : (page.pointerAt first).isUsed
      · have here : (page.itemAt first).isSome := by
          rw [packed.isSome_itemAt]
          exact used
        exact ⟨true, by rw [if_pos used]; rfl, fun _ => ⟨first, Nat.le_refl _, by omega, here⟩, fun _ => rfl⟩
      · refine ⟨any, by rw [if_neg used, eq], iff.trans ⟨?_, ?_⟩⟩
        · rintro ⟨offset, low, high, found⟩
          exact ⟨offset, by omega, by omega, found⟩
        · rintro ⟨offset, low, high, found⟩
          have ne : offset ≠ first := by
            rintro rfl
            rw [packed.isSome_itemAt] at found
            exact used found
          exact ⟨offset, by omega, by omega, found⟩

/-- Whether the page has items. -/
theorem hasItems_eq (packed : page.Packed) :
    ∃ any, page.hasItems = .ok any ∧ (any = true ↔ ∃ offset, (page.itemAt offset).isSome) := by
  obtain ⟨any, eq, iff⟩ := packed.anyUsedFrom_eq 1 page.maxOffset
  refine ⟨any, eq, iff.trans ⟨fun ⟨offset, _, _, taken⟩ => ⟨offset, taken⟩, fun ⟨offset, taken⟩ => ?_⟩⟩
  obtain ⟨bytes, found⟩ := Option.isSome_iff_exists.mp taken
  have := packed.offset_of_itemAt found
  exact ⟨offset, by omega, by omega, taken⟩

theorem itemsFrom_eq (packed : page.Packed) (first count : Nat) :
    ∃ items, page.itemsFrom first count = .ok items ∧ (items.map Prod.fst).Nodup ∧
      ∀ offset bytes, (offset, bytes) ∈ items ↔
        first ≤ offset ∧ offset < first + count ∧ page.itemAt offset = some bytes := by
  induction count generalizing first with
  | zero => exact ⟨[], rfl, List.nodup_nil, by simp; omega⟩
  | succ count ih =>
      obtain ⟨items, eq, nodup, mem⟩ := ih (first + 1)
      cases found : page.itemAt first with
      | none =>
          refine ⟨items, by simp only [itemsFrom, packed.item_eq, found, eq, bind, Except.bind, pure,
            Except.pure], nodup, fun offset bytes => (mem offset bytes).trans ⟨?_, ?_⟩⟩
          · rintro ⟨low, high, item⟩
            exact ⟨by omega, by omega, item⟩
          · rintro ⟨low, high, item⟩
            have ne : offset ≠ first := by
              rintro rfl
              rw [found] at item
              cases item
            exact ⟨by omega, by omega, item⟩
      | some here =>
          refine ⟨(first, here) :: items, by simp only [itemsFrom, packed.item_eq, found, eq, bind,
            Except.bind, pure, Except.pure], ?_, fun offset bytes => ?_⟩
          · rw [List.map_cons, List.nodup_cons]
            refine ⟨fun again => ?_, nodup⟩
            obtain ⟨⟨offset, bytes⟩, later, eq⟩ := List.mem_map.mp again
            have := (mem offset bytes).mp later
            simp only at eq
            omega
          · rw [List.mem_cons, mem offset bytes, Prod.mk.injEq]
            constructor
            · rintro (⟨rfl, rfl⟩ | ⟨low, high, item⟩)
              · exact ⟨Nat.le_refl _, by omega, found⟩
              · exact ⟨by omega, by omega, item⟩
            · rintro ⟨low, high, item⟩
              by_cases eq : offset = first
              · subst eq
                rw [found] at item
                exact .inl ⟨rfl, (Option.some.inj item).symm⟩
              · exact .inr ⟨by omega, by omega, item⟩

/-- The items of the page. -/
theorem items_eq (packed : page.Packed) :
    ∃ items, page.items = .ok items ∧ (items.map Prod.fst).Nodup ∧
      ∀ offset bytes, (offset, bytes) ∈ items ↔ page.itemAt offset = some bytes := by
  obtain ⟨items, eq, nodup, mem⟩ := packed.itemsFrom_eq 1 page.maxOffset
  refine ⟨items, eq, nodup, fun offset bytes => (mem offset bytes).trans ⟨fun h => h.2.2, fun found => ?_⟩⟩
  have := packed.offset_of_itemAt found
  exact ⟨by omega, by omega, found⟩

end Packed

/-! ## Empty pages -/

@[simp]
theorem lower_blank (special : UInt16) : (blank special).lower = UInt16.ofNat headerSize := by
  rw [lower, blank, word16_setWord16_apart _ _ _ _ _ _ (by decide),
    word16_setWord16_apart _ _ _ _ _ _ (by decide), setUpper,
    word16_setWord16_apart _ _ _ _ _ _ (by decide), setLower, word16_setWord16_same]

@[simp]
theorem upper_blank (special : UInt16) : (blank special).upper = special := by
  rw [upper, blank, word16_setWord16_apart _ _ _ _ _ _ (by decide),
    word16_setWord16_apart _ _ _ _ _ _ (by decide), setUpper, word16_setWord16_same]

@[simp]
theorem special_blank (special : UInt16) : (blank special).special = special := by
  rw [Page.special, blank, word16_setWord16_apart _ _ _ _ _ _ (by decide), word16_setWord16_same]

@[simp]
theorem maxOffset_blank (special : UInt16) : (blank special).maxOffset = 0 := by
  rw [maxOffset, lower_blank]
  rfl

theorem pointerAt_blank (special : UInt16) (offset : Nat) : (blank special).pointerAt offset = .unused := by
  apply pointerAt_outside
  rw [maxOffset_blank]
  omega

theorem packed_blank {special : UInt16} (low : headerSize ≤ special.toNat) (high : special.toNat ≤ pageSize) :
    (blank special).Packed := by
  constructor
  · simp [headerSize]
  · simpa [headerSize] using low
  · simp
  · simpa using high
  all_goals
    intro offset
    simp [pointerAt_blank]

/-! ## Bounds for every page -/

/-- No page has more items. -/
def mostItems : Nat := 2 ^ 14

theorem length_of_fetch {page : Page} {pos count : Nat} {bytes : List UInt8} (eq : page.fetch pos count = .ok bytes) :
    bytes.length = count := by
  rw [fetch] at eq
  split at eq
  · obtain rfl := Except.ok.inj eq
    exact length_slice ..
  · cases eq

theorem length_lt_of_pointer {page : Page} {offset : Nat} {pointer : LinePointer}
    (eq : page.pointer offset = .ok pointer) : pointer.length.toNat < 2 ^ 15 := by
  rw [Page.pointer] at eq
  split at eq
  · obtain rfl := Except.ok.inj eq
    decide
  · cases fetched : page.fetch32 (pointerPos offset) with
    | error cause =>
        rw [fetched] at eq
        cases eq
    | ok word =>
        rw [fetched] at eq
        obtain rfl := Except.ok.inj eq
        exact LinePointer.length_ofWord_lt word

theorem length_lt_of_item {page : Page} {offset : Nat} {bytes : List UInt8}
    (eq : page.item offset = .ok (some bytes)) : bytes.length < 2 ^ 15 := by
  rw [item] at eq
  cases at_offset : page.pointer offset with
  | error cause =>
      rw [at_offset] at eq
      cases eq
  | ok pointer =>
      simp only [at_offset, bind, Except.bind] at eq
      split at eq
      · cases fetched : page.fetch pointer.position.toNat pointer.length.toNat with
        | error cause =>
            rw [fetched] at eq
            cases eq
        | ok found =>
            rw [fetched] at eq
            obtain rfl := Option.some.inj (Except.ok.inj eq)
            rw [length_of_fetch fetched]
            exact length_lt_of_pointer at_offset
      · cases eq

theorem itemsFrom_bounds {page : Page} {first count : Nat} {items : List (Nat × List UInt8)}
    (eq : page.itemsFrom first count = .ok items) :
    items.length ≤ count ∧ ∀ entry ∈ items, entry.2.length < 2 ^ 15 := by
  induction count generalizing first items with
  | zero =>
      obtain rfl := Except.ok.inj eq
      exact ⟨Nat.le_refl _, fun _ mem => absurd mem List.not_mem_nil⟩
  | succ count ih =>
      rw [itemsFrom] at eq
      cases found : page.item first with
      | error cause =>
          rw [found] at eq
          cases eq
      | ok item =>
          cases following : page.itemsFrom (first + 1) count with
          | error cause =>
              rw [found, following] at eq
              cases eq
          | ok rest =>
              obtain ⟨few, short⟩ := ih following
              rw [found, following] at eq
              cases item with
              | none =>
                  obtain rfl := Except.ok.inj eq
                  exact ⟨Nat.le_succ_of_le few, short⟩
              | some bytes =>
                  obtain rfl := Except.ok.inj eq
                  refine ⟨Nat.succ_le_succ few, fun entry mem => ?_⟩
                  rcases List.mem_cons.mp mem with rfl | mem
                  · exact length_lt_of_item found
                  · exact short entry mem

/-- Whatever its bytes are, a page has few items, and they are short. -/
theorem items_bounds {page : Page} {items : List (Nat × List UInt8)} (eq : page.items = .ok items) :
    items.length ≤ mostItems ∧ ∀ entry ∈ items, entry.2.length < 2 ^ 15 := by
  obtain ⟨few, short⟩ := itemsFrom_bounds eq
  have lower := page.lower.toNat_lt
  refine ⟨Nat.le_trans few ?_, short⟩
  simp only [maxOffset, mostItems, headerSize, pointerSize]
  omega

end Warehouse.Page
