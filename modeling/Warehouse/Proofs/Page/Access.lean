import Warehouse.Page.Items
import Warehouse.Proofs.Encoding

/-! # Reading after writing

A reader of a page looks at a run of its bytes, and a writer changes one. `SameOn` says
that two pages agree on a run: every reader gives the same result on pages that agree on
the run it looks at, and a writer leaves the bytes outside its own run alone. -/

namespace Warehouse.Page

/-- The pages agree on the bytes from `first` up to `last`. -/
def SameOn (first last : Nat) (page other : Page) : Prop :=
  ∀ pos (h : pos < pageSize), first ≤ pos → pos < last → page.byte pos h = other.byte pos h

namespace SameOn

variable {first last first' last' : Nat} {page other third : Page}

theorem refl (first last : Nat) (page : Page) : SameOn first last page page :=
  fun _ _ _ _ => rfl

theorem symm (h : SameOn first last page other) : SameOn first last other page :=
  fun pos hp low high => (h pos hp low high).symm

theorem trans (h : SameOn first last page other) (h' : SameOn first last other third) :
    SameOn first last page third :=
  fun pos hp low high => (h pos hp low high).trans (h' pos hp low high)

theorem mono (h : SameOn first last page other) (low : first ≤ first') (high : last' ≤ last) :
    SameOn first' last' page other :=
  fun pos hp hlow hhigh => h pos hp (by omega) (by omega)

theorem slice_eq {pos count : Nat} (h : SameOn first last page other) (low : first ≤ pos)
    (high : pos + count ≤ last) (fits : pos + count ≤ pageSize) :
    page.slice pos count fits = other.slice pos count fits := by
  apply List.ext_getElem (by simp)
  intro i hi hi'
  simp only [length_slice] at hi
  rw [getElem_slice, getElem_slice]
  exact h _ _ (by omega) (by omega)

theorem word16_eq {pos : Nat} (h : SameOn first last page other) (low : first ≤ pos)
    (high : pos + 2 ≤ last) (fits : pos + 2 ≤ pageSize) :
    page.word16 pos fits = other.word16 pos fits := by
  rw [word16, word16, h.slice_eq low high fits]

theorem word32_eq {pos : Nat} (h : SameOn first last page other) (low : first ≤ pos)
    (high : pos + 4 ≤ last) (fits : pos + 4 ≤ pageSize) :
    page.word32 pos fits = other.word32 pos fits := by
  rw [word32, word32, h.slice_eq low high fits]

theorem fetch_eq {pos count : Nat} (h : SameOn first last page other) (low : first ≤ pos)
    (high : pos + count ≤ last) : page.fetch pos count = other.fetch pos count := by
  by_cases fits : pos + count ≤ pageSize
  · simp only [fetch, fits, dite_true, h.slice_eq low high fits]
  · simp only [fetch, fits, dite_false]

theorem fetch32_eq {pos : Nat} (h : SameOn first last page other) (low : first ≤ pos)
    (high : pos + 4 ≤ last) : page.fetch32 pos = other.fetch32 pos := by
  by_cases fits : pos + 4 ≤ pageSize
  · simp only [fetch32, fits, dite_true, h.word32_eq low high fits]
  · simp only [fetch32, fits, dite_false]

theorem lower_eq (h : SameOn first last page other) (low : first ≤ 12) (high : 14 ≤ last) :
    page.lower = other.lower :=
  h.word16_eq low high _

theorem upper_eq (h : SameOn first last page other) (low : first ≤ 14) (high : 16 ≤ last) :
    page.upper = other.upper :=
  h.word16_eq low high _

theorem special_eq (h : SameOn first last page other) (low : first ≤ 16) (high : 18 ≤ last) :
    page.special = other.special :=
  h.word16_eq low high _

theorem lsn_eq (h : SameOn first last page other) (low : first ≤ 0) (high : 8 ≤ last) :
    page.lsn = other.lsn := by
  rw [lsn, lsn, h.slice_eq low high]

end SameOn

/-- A patch leaves the bytes on both sides of it alone. -/
theorem sameOn_patch (page : Page) (pos : Nat) (values : List UInt8)
    (h : pos + values.length ≤ pageSize) {first last : Nat}
    (apart : last ≤ pos ∨ pos + values.length ≤ first) :
    SameOn first last (page.patch pos values h) page := by
  intro other ho low high
  rw [byte_patch, dite_cond_eq_false]
  exact eq_false (by omega)

/-- A run within a patch reads back as it was written. -/
theorem slice_patch_inside (page : Page) (pos skipped count : Nat) (values : List UInt8)
    (h : pos + values.length ≤ pageSize) (inside : skipped + count ≤ values.length)
    (fits : pos + skipped + count ≤ pageSize) :
    (page.patch pos values h).slice (pos + skipped) count fits = (values.drop skipped).take count := by
  apply List.ext_getElem (by simp; omega)
  intro i hi hi'
  simp only [length_slice] at hi
  have within : pos ≤ pos + skipped + i ∧ pos + skipped + i - pos < values.length := by omega
  rw [getElem_slice, byte_patch, dite_cond_eq_true (eq_true within)]
  simp only [List.getElem_take, List.getElem_drop]
  congr 1
  omega

theorem sameOn_setWord16 (page : Page) (pos : Nat) (value : UInt16) (h : pos + 2 ≤ pageSize)
    {first last : Nat} (apart : last ≤ pos ∨ pos + 2 ≤ first) :
    SameOn first last (page.setWord16 pos value h) page :=
  sameOn_patch _ _ _ _ (by simpa using apart)

theorem sameOn_setWord32 (page : Page) (pos : Nat) (value : UInt32) (h : pos + 4 ≤ pageSize)
    {first last : Nat} (apart : last ≤ pos ∨ pos + 4 ≤ first) :
    SameOn first last (page.setWord32 pos value h) page :=
  sameOn_patch _ _ _ _ (by simpa using apart)

theorem sameOn_setLsn (page : Page) (lsn : Lsn) {first last : Nat} (apart : 8 ≤ first) :
    SameOn first last (page.setLsn lsn) page :=
  sameOn_patch _ _ _ _ (.inr (by simpa using apart))

@[simp]
theorem word16_setWord16_same (page : Page) (pos : Nat) (value : UInt16) (h h' : pos + 2 ≤ pageSize) :
    (page.setWord16 pos value h).word16 pos h' = value := by
  have bytes := slice_patch_inside page pos 0 2 (littleEndian 2 value.toNat) (by simpa using h)
    (by simp) h'
  rw [List.drop_zero, List.take_of_length_le (by simp)] at bytes
  have fits := value.toNat_lt
  rw [word16, setWord16]
  refine (congrArg (fun list => UInt16.ofNat (ofLittleEndian list)) bytes).trans ?_
  simp only [ofLittleEndian_littleEndian]
  rw [Nat.mod_eq_of_lt (by omega), UInt16.ofNat_toNat]

@[simp]
theorem word32_setWord32_same (page : Page) (pos : Nat) (value : UInt32) (h h' : pos + 4 ≤ pageSize) :
    (page.setWord32 pos value h).word32 pos h' = value := by
  have bytes := slice_patch_inside page pos 0 4 (littleEndian 4 value.toNat) (by simpa using h)
    (by simp) h'
  rw [List.drop_zero, List.take_of_length_le (by simp)] at bytes
  have fits := value.toNat_lt
  rw [word32, setWord32]
  refine (congrArg (fun list => UInt32.ofNat (ofLittleEndian list)) bytes).trans ?_
  simp only [ofLittleEndian_littleEndian]
  rw [Nat.mod_eq_of_lt (by omega), UInt32.ofNat_toNat]

@[simp]
theorem lsn_setLsn (page : Page) (lsn : Lsn) : (page.setLsn lsn).lsn = lsn := by
  have bytes := slice_patch_inside page 0 0 8 (littleEndian 8 lsn.toNat) (by simp [pageSize])
    (by simp) (by decide)
  rw [List.drop_zero, List.take_of_length_le (by simp)] at bytes
  have fits := lsn.toNat_lt
  rw [Page.lsn, setLsn]
  refine (congrArg (fun list => UInt64.ofNat (ofLittleEndian list)) bytes).trans ?_
  simp only [ofLittleEndian_littleEndian]
  rw [Nat.mod_eq_of_lt (by omega), UInt64.ofNat_toNat]

/-- Words that do not meet do not affect each other. -/
theorem word16_setWord16_apart (page : Page) (pos other : Nat) (value : UInt16)
    (h : pos + 2 ≤ pageSize) (h' : other + 2 ≤ pageSize) (apart : other + 2 ≤ pos ∨ pos + 2 ≤ other) :
    (page.setWord16 pos value h).word16 other h' = page.word16 other h' :=
  (sameOn_setWord16 page pos value h apart).word16_eq (Nat.le_refl _) (Nat.le_refl _) h'

theorem word16_setWord32_apart (page : Page) (pos other : Nat) (value : UInt32)
    (h : pos + 4 ≤ pageSize) (h' : other + 2 ≤ pageSize) (apart : other + 2 ≤ pos ∨ pos + 4 ≤ other) :
    (page.setWord32 pos value h).word16 other h' = page.word16 other h' :=
  (sameOn_setWord32 page pos value h apart).word16_eq (Nat.le_refl _) (Nat.le_refl _) h'

/-! ## Writing after writing -/

section Order

variable {page other : Page}

/-- A page is given by its bytes. -/
theorem ext_byte (h : ∀ pos (inside : pos < pageSize), page.byte pos inside = other.byte pos inside) :
    page = other := by
  obtain ⟨⟨bytes⟩, size⟩ := page
  obtain ⟨⟨bytes'⟩, size'⟩ := other
  have same : bytes = bytes' := by
    refine Array.ext (Eq.trans size size'.symm) fun i inside inside' => ?_
    exact h i (Nat.lt_of_lt_of_eq inside size)
  subst same
  rfl

/-- Patches that do not meet may be made in any order. -/
theorem patch_comm (page : Page) {pos pos' : Nat} {values values' : List UInt8} (h : pos + values.length ≤ pageSize)
    (h' : pos' + values'.length ≤ pageSize) (apart : pos + values.length ≤ pos') :
    (page.patch pos values h).patch pos' values' h' = (page.patch pos' values' h').patch pos values h := by
  refine ext_byte fun i inside => ?_
  simp only [byte_patch]
  by_cases low : pos ≤ i ∧ i - pos < values.length
  · have high : ¬ (pos' ≤ i ∧ i - pos' < values'.length) := by omega
    simp only [low, high, dite_true, dite_false, and_self]
  · simp only [low, dite_false]

/-- Of two patches of the same run the later one counts. -/
theorem patch_patch (page : Page) {pos : Nat} {values values' : List UInt8} (h : pos + values.length ≤ pageSize)
    (h' : pos + values'.length ≤ pageSize) (length : values.length = values'.length) :
    (page.patch pos values h).patch pos values' h' = page.patch pos values' h' := by
  refine ext_byte fun i inside => ?_
  simp only [byte_patch]
  by_cases here : pos ≤ i ∧ i - pos < values'.length
  · rw [dif_pos here, dif_pos here]
  · rw [dif_neg here, dif_neg here, dif_neg (by rwa [length])]

section Words

variable {pos : Nat} {value : UInt16} (high : pos + 2 ≤ pageSize)

theorem setWord16_comm (page : Page) {pos' : Nat} {value' : UInt16} (h : pos' + 2 ≤ pageSize) (apart : pos' + 2 ≤ pos) :
    (page.setWord16 pos value high).setWord16 pos' value' h = (page.setWord16 pos' value' h).setWord16 pos value high :=
  (patch_comm page _ _ (by simpa using apart)).symm

theorem setWord16_setWord32_comm (page : Page) {pos' : Nat} {value' : UInt32} (h : pos' + 4 ≤ pageSize)
    (apart : pos' + 4 ≤ pos) :
    (page.setWord16 pos value high).setWord32 pos' value' h = (page.setWord32 pos' value' h).setWord16 pos value high :=
  (patch_comm page _ _ (by simpa using apart)).symm

theorem setWord16_setWord16 (page : Page) {value' : UInt16} :
    (page.setWord16 pos value high).setWord16 pos value' high =
    page.setWord16 pos value' high :=
  patch_patch page _ _ (by simp)

theorem lower_setWord16 (apart : 14 ≤ pos) : (page.setWord16 pos value high).lower = page.lower :=
  word16_setWord16_apart _ _ _ _ _ _ (.inl apart)

theorem upper_setWord16 (apart : 16 ≤ pos) : (page.setWord16 pos value high).upper = page.upper :=
  word16_setWord16_apart _ _ _ _ _ _ (.inl apart)

end Words

end Order

end Warehouse.Page
