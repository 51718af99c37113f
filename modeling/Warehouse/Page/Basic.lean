import Warehouse.Block
import Warehouse.Bytes
import Warehouse.Error

/-! # Page images

A page is an image of fixed size. All access goes through `slice` and `patch`,
which read and replace a run of bytes; the words of the header are such runs.
`slice_patch_same` and `slice_patch_disjoint` are the laws of the two. Accesses
at positions known in advance are total; those at computed positions fault when
they leave the page. -/

namespace Warehouse

/-- Size of every index page in bytes. -/
abbrev pageSize : Nat := 32768

/-- Size of the header: log position, checksum, flags, `lower`, `upper`,
`special`, size with layout version, and prune horizon. -/
abbrev headerSize : Nat := 24

/-- An image of `pageSize` bytes. -/
structure Page where
  bytes : ByteArray
  size_eq : bytes.size = pageSize

namespace Page

theorem ext_data {page other : Page} (h : page.bytes.data = other.bytes.data) : page = other := by
  obtain ⟨⟨data⟩, size⟩ := page
  obtain ⟨⟨data'⟩, size'⟩ := other
  cases h
  rfl

instance : DecidableEq Page := fun page other =>
  decidable_of_iff (page.bytes.data = other.bytes.data)
    ⟨ext_data, congrArg fun page : Page => page.bytes.data⟩

/-- The page of zero bytes, as it is when a relation grows. -/
def zero : Page :=
  ⟨⟨Array.replicate pageSize 0⟩, by simp [ByteArray.size]⟩

instance : Inhabited Page := ⟨zero⟩

/-- The page with the given bytes, if their number is right. -/
def ofBytes (bytes : List UInt8) : Except Error Page :=
  let image : ByteArray := ⟨bytes.toArray⟩
  if h : image.size = pageSize then .ok ⟨image, h⟩
  else .error (.serialization s!"page image has {bytes.length} bytes, expected {pageSize}")

/-- The byte at `pos`. -/
def byte (page : Page) (pos : Nat) (h : pos < pageSize) : UInt8 :=
  page.bytes.get pos (page.size_eq ▸ h)

/-- Replace the byte at `pos`. -/
def setByte (page : Page) (pos : Nat) (value : UInt8) (h : pos < pageSize) : Page :=
  ⟨page.bytes.set pos value (page.size_eq ▸ h),
    (Array.size_set ..).trans page.size_eq⟩

/-- The `count` bytes from `pos` on. -/
def slice (page : Page) (pos count : Nat) (h : pos + count ≤ pageSize) : List UInt8 :=
  List.ofFn fun i : Fin count => page.byte (pos + i) (by omega)

/-- Replace the bytes from `pos` on by `values`. -/
def patch (page : Page) (pos : Nat) :
    (values : List UInt8) → (h : pos + values.length ≤ pageSize) → Page
  | [], _ => page
  | value :: rest, h =>
      (page.setByte pos value (by simp at h; omega)).patch (pos + 1) rest (by simp at h; omega)

/-- The sixteen-bit word at `pos`. -/
def word16 (page : Page) (pos : Nat) (h : pos + 2 ≤ pageSize := by decide) : UInt16 :=
  UInt16.ofNat (ofLittleEndian (page.slice pos 2 h))

/-- The thirty-two-bit word at `pos`. -/
def word32 (page : Page) (pos : Nat) (h : pos + 4 ≤ pageSize := by decide) : UInt32 :=
  UInt32.ofNat (ofLittleEndian (page.slice pos 4 h))

/-- Replace the sixteen-bit word at `pos`. -/
def setWord16 (page : Page) (pos : Nat) (value : UInt16)
    (h : pos + 2 ≤ pageSize := by decide) : Page :=
  page.patch pos (littleEndian 2 value.toNat) (by simpa using h)

/-- Replace the thirty-two-bit word at `pos`. -/
def setWord32 (page : Page) (pos : Nat) (value : UInt32)
    (h : pos + 4 ≤ pageSize := by decide) : Page :=
  page.patch pos (littleEndian 4 value.toNat) (by simpa using h)

/-- The `count` bytes from `pos` on, if the page has them. -/
def fetch (page : Page) (pos count : Nat) : Except Fault (List UInt8) :=
  if h : pos + count ≤ pageSize then .ok (page.slice pos count h) else .error .outOfBounds

/-- Replace the bytes from `pos` on, if the page has them. -/
def store (page : Page) (pos : Nat) (values : List UInt8) : Except Fault Page :=
  if h : pos + values.length ≤ pageSize then .ok (page.patch pos values h) else .error .outOfBounds

/-- The sixteen-bit word at a computed position. -/
def fetch16 (page : Page) (pos : Nat) : Except Fault UInt16 :=
  if h : pos + 2 ≤ pageSize then .ok (page.word16 pos h) else .error .outOfBounds

/-- The thirty-two-bit word at a computed position. -/
def fetch32 (page : Page) (pos : Nat) : Except Fault UInt32 :=
  if h : pos + 4 ≤ pageSize then .ok (page.word32 pos h) else .error .outOfBounds

/-- Replace the sixteen-bit word at a computed position. -/
def store16 (page : Page) (pos : Nat) (value : UInt16) : Except Fault Page :=
  if h : pos + 2 ≤ pageSize then .ok (page.setWord16 pos value h) else .error .outOfBounds

/-- Replace the thirty-two-bit word at a computed position. -/
def store32 (page : Page) (pos : Nat) (value : UInt32) : Except Fault Page :=
  if h : pos + 4 ≤ pageSize then .ok (page.setWord32 pos value h) else .error .outOfBounds

/-! ## The header -/

/-- Log position of the last change to the page. -/
def lsn (page : Page) : Lsn :=
  UInt64.ofNat (ofLittleEndian (page.slice 0 8 (by decide)))

/-- Stamp the page with a log position. -/
def setLsn (page : Page) (lsn : Lsn) : Page :=
  page.patch 0 (littleEndian 8 lsn.toNat) (by simp [pageSize])

/-- End of the line pointer array. -/
def lower (page : Page) : UInt16 := page.word16 12

/-- Move the end of the line pointer array. -/
def setLower (page : Page) (value : UInt16) : Page := page.setWord16 12 value

/-- Start of the item data; zero on a page that was never initialised. -/
def upper (page : Page) : UInt16 := page.word16 14

/-- Move the start of the item data. -/
def setUpper (page : Page) (value : UInt16) : Page := page.setWord16 14 value

/-- Start of the special area at the end of the page. -/
def special (page : Page) : UInt16 := page.word16 16

/-- Whether the page was never initialised. -/
def isNew (page : Page) : Bool := page.upper == 0

/-- Round a length up to a multiple of eight. -/
def align (length : Nat) : Nat := (length + 7) / 8 * 8

/-- Version of the page layout, stored together with the page size. -/
def layoutVersion : Nat := 4

/-- An empty page whose special area starts at a position. -/
def blank (special : UInt16) : Page :=
  (((zero.setLower (UInt16.ofNat headerSize)).setUpper special).setWord16 16 special).setWord16 18
    (UInt16.ofNat (pageSize + layoutVersion))

/-- An empty page with `reserved` bytes, rounded up, set aside at its end. -/
def init (reserved : Nat) : Except Fault Page :=
  if align reserved ≤ pageSize then .ok (blank (UInt16.ofNat (pageSize - align reserved)))
  else .error .overflow

/-! ## Laws of byte access -/

theorem byte_setByte (page : Page) (pos other : Nat) (value : UInt8) (h : pos < pageSize)
    (h' : other < pageSize) :
    (page.setByte pos value h).byte other h' = if pos = other then value else page.byte other h' := by
  have inside : pos < page.bytes.data.size := Nat.lt_of_lt_of_eq h page.size_eq.symm
  exact Array.getElem_set inside ..

@[ext]
theorem ext {page other : Page} (h : ∀ pos (hp : pos < pageSize), page.byte pos hp = other.byte pos hp) :
    page = other := by
  obtain ⟨⟨bytes⟩, size⟩ := page
  obtain ⟨⟨bytes'⟩, size'⟩ := other
  simp only [Page.mk.injEq, ByteArray.mk.injEq]
  simp only [ByteArray.size] at size size'
  apply Array.ext (size.trans size'.symm)
  intro pos hp hp'
  exact h pos (by omega)

@[simp]
theorem length_slice (page : Page) (pos count : Nat) (h : pos + count ≤ pageSize) :
    (page.slice pos count h).length = count := by
  simp [slice]

theorem getElem_slice (page : Page) (pos count i : Nat) (h : pos + count ≤ pageSize)
    (hi : i < (page.slice pos count h).length) :
    (page.slice pos count h)[i] = page.byte (pos + i) (by simp at hi; omega) := by
  simp [slice]

/-- Patching changes the bytes of the run and no other. -/
theorem byte_patch (page : Page) (pos other : Nat) (values : List UInt8)
    (h : pos + values.length ≤ pageSize) (h' : other < pageSize) :
    (page.patch pos values h).byte other h' =
      if inside : pos ≤ other ∧ other - pos < values.length then values[other - pos]
      else page.byte other h' := by
  induction values generalizing page pos with
  | nil => simp [patch]
  | cons value rest ih =>
      have h1 : pos < pageSize := by simp at h; omega
      rw [patch, ih, byte_setByte]
      by_cases eq : pos = other
      · subst eq
        have before : ¬ (pos + 1 ≤ pos ∧ pos - (pos + 1) < rest.length) := by omega
        rw [dif_neg before]
        simp
      · by_cases later : pos + 1 ≤ other ∧ other - (pos + 1) < rest.length
        · have inside : pos ≤ other ∧ other - pos < (value :: rest).length := by
            simp only [List.length_cons]; omega
          obtain ⟨gap, hgap⟩ : ∃ gap, other - pos = gap + 1 := ⟨other - (pos + 1), by omega⟩
          have hgap' : other - (pos + 1) = gap := by omega
          rw [dite_cond_eq_true (eq_true later), dite_cond_eq_true (eq_true inside)]
          simp only [hgap, hgap', List.getElem_cons_succ]
        · have outside : ¬ (pos ≤ other ∧ other - pos < (value :: rest).length) := by
            simp only [List.length_cons]; omega
          rw [dite_cond_eq_false (eq_false later), dite_cond_eq_false (eq_false outside)]
          simp [eq]

/-- A run reads back as it was written. -/
theorem slice_patch_same (page : Page) (pos : Nat) (values : List UInt8)
    (h : pos + values.length ≤ pageSize) :
    (page.patch pos values h).slice pos values.length h = values := by
  apply List.ext_getElem (by simp)
  intro i hi hi'
  rw [getElem_slice, byte_patch]
  simp [hi']

/-- Runs that do not meet do not affect each other. -/
theorem slice_patch_disjoint (page : Page) (pos : Nat) (values : List UInt8) (other count : Nat)
    (h : pos + values.length ≤ pageSize) (h' : other + count ≤ pageSize)
    (apart : other + count ≤ pos ∨ pos + values.length ≤ other) :
    (page.patch pos values h).slice other count h' = page.slice other count h' := by
  apply List.ext_getElem (by simp)
  intro i hi hi'
  simp only [length_slice] at hi
  rw [getElem_slice, getElem_slice, byte_patch, dite_cond_eq_false]
  exact eq_false (by omega)

end Page

end Warehouse
