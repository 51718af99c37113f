import Warehouse.Proofs.RangeIndex.Pages
import Warehouse.RangeIndex.Metapage

/-! # Contents of the metapage

What is written on the metapage is read back, and stamping the page does not change it. -/

namespace Warehouse.RangeIndex

namespace Chain

theorem length_flatMap_encode (list : List Chain) : (list.flatMap Chain.encode).length = list.length * 12 := by
  induction list with
  | nil => rfl
  | cons chain rest ih =>
      simp only [List.flatMap_cons, List.length_append, ih, encode, length_littleEndian, List.length_cons]
      omega

/-- The bytes of a chain stand at its place among those of all chains. -/
theorem drop_flatMap_encode (list : List Chain) (index : Nat) (h : index < list.length) :
    ((list.flatMap Chain.encode).drop (index * 12)).take 12 = list[index].encode := by
  induction list generalizing index with
  | nil => exact absurd h (by simp)
  | cons chain rest ih =>
      have size : chain.encode.length = 12 := by simp [encode]
      cases index with
      | zero =>
          rw [List.flatMap_cons, Nat.zero_mul, List.drop_zero, List.take_left' size]
          rfl
      | succ index =>
          have later : (index + 1) * 12 = chain.encode.length + index * 12 := by omega
          rw [List.flatMap_cons, later, List.drop_length_add_append, ih index (by simpa using h)]
          rfl

end Chain

namespace Metapage

/-- The page is a metapage with the given contents. -/
def Holds (page : Page) (contents : Metapage) : Prop :=
  ∀ index block, read page index block = .ok contents

theorem read_eq_ok_iff {page : Page} {index : String} {block : BlockNumber} {contents : Metapage} :
    read page index block = .ok contents ↔ pageType page = metaType ∧ page.word32 24 = metaMagic ∧
      contents = ⟨page.word32 24, page.word32 28, page.word32 32, page.word32 36,
        page.byte 40 (by decide) != 0, Vector.ofFn (chainAt page)⟩ := by
  constructor
  · intro eq
    simp only [read] at eq
    split at eq
    · cases eq
    · rename_i kind
      split at eq
      · cases eq
      · rename_i magic
        exact ⟨Decidable.not_not.mp kind, Decidable.not_not.mp magic, (Except.ok.inj eq).symm⟩
  · rintro ⟨kind, magic, rfl⟩
    simp only [read, kind, magic, ne_eq, not_true_eq_false, if_false]

theorem holds_iff {page : Page} {contents : Metapage} :
    Holds page contents ↔ pageType page = metaType ∧ page.word32 24 = metaMagic ∧
      contents = ⟨page.word32 24, page.word32 28, page.word32 32, page.word32 36,
        page.byte 40 (by decide) != 0, Vector.ofFn (chainAt page)⟩ :=
  ⟨fun holds => read_eq_ok_iff.mp (holds "" 0), fun eq _ _ => read_eq_ok_iff.mpr eq⟩

/-- The contents that can be read from a metapage do not depend on who reads it. -/
theorem holds_of_read {page : Page} {index : String} {block : BlockNumber} {contents : Metapage}
    (read_eq : read page index block = .ok contents) : Holds page contents :=
  holds_iff.mpr (read_eq_ok_iff.mp read_eq)

theorem Holds.unique {page : Page} {contents other : Metapage} (h : Holds page contents)
    (again : Holds page other) : contents = other :=
  Except.ok.inj ((h "" 0).symm.trans (again "" 0))

/-- The contents do not depend on the log position of the page. -/
theorem Holds.congr {page other : Page} {contents : Metapage} (h : Holds page contents)
    (same : Page.SameOn 24 pageSize other page) : Holds other contents := by
  obtain ⟨kind, magic, eq⟩ := holds_iff.mp h
  have words : ∀ pos (fits : pos + 4 ≤ pageSize), 24 ≤ pos → other.word32 pos fits = page.word32 pos fits :=
    fun pos fits low => same.word32_eq low fits fits
  have chains : chainAt other = chainAt page := by
    funext sequence
    have bound : sequence.val < 128 := sequence.isLt
    simp only [chainAt, words _ _ (show 24 ≤ 44 + sequence.val * 12 by omega),
      words _ _ (show 24 ≤ 44 + sequence.val * 12 + 4 by omega),
      words _ _ (show 24 ≤ 44 + sequence.val * 12 + 8 by omega)]
  refine holds_iff.mpr ⟨?_, ?_, ?_⟩
  · exact ((links_congr (same.mono (by decide) (Nat.le_refl _))).1).trans kind
  · rw [words _ _ (Nat.le_refl _), magic]
  · rw [eq, chains, words _ _ (Nat.le_refl _), words _ _ (by decide), words _ _ (by decide),
      words _ _ (by decide), same 40 (by decide) (by decide) (by decide)]

section Write

variable (contents : Metapage) (page : Page)

theorem sameOn_write {first last : Nat} (bounds : last ≤ 12 ∨ 14 ≤ first)
    (body : last ≤ 24 ∨ 1580 ≤ first) : Page.SameOn first last (contents.write page) page := by
  rw [write, Page.setLower]
  refine (Page.sameOn_setWord16 _ _ _ _ (by omega)).trans (Page.sameOn_patch _ _ _ _ ?_)
  rw [length_encode]
  simp only [headerSize, metaSize, metaFixedSize, sequenceCount, chainSize]
  omega

/-- The bytes of the contents are where they were put. -/
theorem slice_write (skipped count : Nat) (h : skipped + count ≤ metaSize)
    (fits : headerSize + skipped + count ≤ pageSize) :
    (contents.write page).slice (headerSize + skipped) count fits =
      (contents.encode.drop skipped).take count := by
  have same : Page.SameOn headerSize pageSize (contents.write page)
      (page.patch headerSize contents.encode (by rw [length_encode]; decide)) := by
    rw [write, Page.setLower]
    exact Page.sameOn_setWord16 _ _ _ _ (.inr (by decide))
  rw [same.slice_eq (by omega) fits fits]
  exact Page.slice_patch_inside _ _ _ _ _ _ (by rw [length_encode]; exact h) _

/-- A word of the contents is read back. -/
theorem word32_write (skipped : Nat) (before after : List UInt8) (value : UInt32)
    (split : contents.encode = before ++ (littleEndian 4 value.toNat ++ after))
    (length : before.length = skipped) (fits : headerSize + skipped + 4 ≤ pageSize) :
    (contents.write page).word32 (headerSize + skipped) fits = value := by
  have size := congrArg List.length split
  simp only [length_encode, List.length_append, length_littleEndian, length] at size
  have bound := value.toNat_lt
  rw [Page.word32, slice_write _ _ _ _ (by omega), split, List.drop_left' length,
    List.take_left' (length_littleEndian ..), ofLittleEndian_littleEndian, Nat.mod_eq_of_lt (by omega),
    UInt32.ofNat_toNat]

theorem byte_write : (contents.write page).byte 40 (by decide) = if contents.appendOnly then 1 else 0 := by
  have bytes := slice_write contents page 16 1 (by decide) (by decide)
  have first : (contents.encode.drop 16).take 1 = [if contents.appendOnly then 1 else 0] := by
    simp [encode, littleEndian]
  rw [first] at bytes
  have length : 0 < ((contents.write page).slice (headerSize + 16) 1 (by decide)).length := by simp
  have := Page.getElem_slice (contents.write page) (headerSize + 16) 1 0 (by decide) length
  rw [← this]
  simp only [bytes, List.getElem_cons_zero]

theorem chainAt_write (sequence : Fin sequenceCount) :
    chainAt (contents.write page) sequence = contents.chains[sequence] := by
  have bound : sequence.val < 128 := sequence.isLt
  have list := Chain.drop_flatMap_encode contents.chains.toList sequence.val (by simp)
  have size := Chain.length_flatMap_encode contents.chains.toList
  simp only [Vector.getElem_toList] at list
  let front := littleEndian 4 contents.magic.toNat ++ littleEndian 4 contents.version.toNat ++
    littleEndian 4 contents.pagesPerRange.toNat ++ littleEndian 4 contents.lastMapPage.toNat ++
    [if contents.appendOnly then 1 else 0, 0, 0, 0]
  let chain := contents.chains[sequence.val]
  let all := contents.chains.toList.flatMap Chain.encode
  have length : front.length = 20 := by simp [front]
  have skip : (all.take (sequence.val * 12)).length = sequence.val * 12 := by
    simp only [all, List.length_take, size, Vector.length_toList]
    omega
  have split : contents.encode = (front ++ all.take (sequence.val * 12)) ++
      (chain.encode ++ all.drop (sequence.val * 12 + 12)) := by
    have rest : all.drop (sequence.val * 12) = chain.encode ++ all.drop (sequence.val * 12 + 12) := by
      rw [← list, ← List.drop_drop, List.take_append_drop]
    rw [List.append_assoc, ← rest, List.take_append_drop]
    rfl
  have word : ∀ (skipped : Nat) (before after : List UInt8) (value : UInt32),
      chain.encode = before ++ (littleEndian 4 value.toNat ++ after) → before.length = skipped →
      ∀ fits, (contents.write page).word32 (headerSize + (20 + sequence.val * 12 + skipped)) fits = value := by
    intro skipped before after value eq len fits
    refine word32_write contents page (20 + sequence.val * 12 + skipped)
      (front ++ all.take (sequence.val * 12) ++ before) (after ++ all.drop (sequence.val * 12 + 12)) value ?_ ?_ fits
    · rw [split, eq]
      simp only [List.append_assoc]
    · rw [List.length_append, List.length_append, length, skip, len]
  have first := word 0 [] (littleEndian 4 chain.last.toNat ++ littleEndian 4 chain.lastLogical.toNat)
    chain.first (by simp only [Chain.encode, List.append_assoc, List.nil_append]) rfl
  have second := word 4 (littleEndian 4 chain.first.toNat) (littleEndian 4 chain.lastLogical.toNat)
    chain.last (by simp only [Chain.encode, List.append_assoc]) (by simp)
  have third := word 8 (littleEndian 4 chain.first.toNat ++ littleEndian 4 chain.last.toNat) []
    chain.lastLogical (by simp only [Chain.encode, List.append_assoc, List.append_nil]) (by simp)
  have pos : ∀ skipped, headerSize + (20 + sequence.val * 12 + skipped) = 44 + sequence.val * 12 + skipped := by
    intro skipped
    simp only [headerSize]
    omega
  simp only [pos] at first second third
  have fits : ∀ skipped, skipped ≤ 8 → 44 + sequence.val * 12 + skipped + 4 ≤ pageSize := by
    intro skipped le
    simp only [pageSize]
    omega
  have first := first (fits 0 (by decide))
  have second := second (fits 4 (by decide))
  have third := third (fits 8 (by decide))
  simp only [chainAt, Fin.getElem_fin]
  rw [show contents.chains[sequence.val] = chain from rfl]
  exact congr (congr (congrArg Chain.mk first) second) third

/-- What is written is read back. -/
theorem holds_write (kind : pageType page = metaType) (magic : contents.magic = metaMagic) :
    Holds (contents.write page) contents := by
  have word : ∀ (skipped : Nat) (before after : List UInt8) (value : UInt32),
      contents.encode = before ++ (littleEndian 4 value.toNat ++ after) → before.length = skipped →
      ∀ fits, (contents.write page).word32 (headerSize + skipped) fits = value := fun skipped before
      after value split length fits => word32_write contents page skipped before after value split length fits
  let rest := [if contents.appendOnly then 1 else 0, 0, 0, 0] ++ contents.chains.toList.flatMap Chain.encode
  have first := word 0 [] (littleEndian 4 contents.version.toNat ++ (littleEndian 4 contents.pagesPerRange.toNat ++
      (littleEndian 4 contents.lastMapPage.toNat ++ rest))) contents.magic
    (by simp only [encode, List.append_assoc, List.nil_append, rest]) rfl (by decide)
  have second := word 4 (littleEndian 4 contents.magic.toNat) (littleEndian 4 contents.pagesPerRange.toNat ++
      (littleEndian 4 contents.lastMapPage.toNat ++ rest)) contents.version
    (by simp only [encode, List.append_assoc, rest]) (by simp) (by decide)
  have third := word 8 (littleEndian 4 contents.magic.toNat ++ littleEndian 4 contents.version.toNat)
    (littleEndian 4 contents.lastMapPage.toNat ++ rest) contents.pagesPerRange
    (by simp only [encode, List.append_assoc, rest]) (by simp) (by decide)
  have fourth := word 12 (littleEndian 4 contents.magic.toNat ++ littleEndian 4 contents.version.toNat ++
      littleEndian 4 contents.pagesPerRange.toNat) rest contents.lastMapPage
    (by simp only [encode, List.append_assoc, rest]) (by simp) (by decide)
  have chains : Vector.ofFn (chainAt (contents.write page)) = contents.chains := by
    apply Vector.ext
    intro i h
    rw [Vector.getElem_ofFn]
    exact chainAt_write contents page ⟨i, h⟩
  refine holds_iff.mpr ⟨?_, ?_, ?_⟩
  · exact ((links_congr (sameOn_write contents page (.inr (by decide)) (.inr (by decide)))).1).trans kind
  · exact first.trans magic
  · have flag : ((contents.write page).byte 40 (by decide) != 0) = contents.appendOnly := by
      rw [byte_write]
      cases contents.appendOnly <;> rfl
    rw [chains, flag]
    refine Eq.symm ?_
    exact congr (congr (congr (congr (congr (congrArg Metapage.mk first) second) third) fourth) rfl) rfl

end Write

theorem holds_initial (pagesPerRange : UInt32) (appendOnly : Bool) :
    Holds (initial pagesPerRange appendOnly) (new pagesPerRange appendOnly) :=
  holds_write _ _ (pageType_freshPage _) rfl

end Metapage

end Warehouse.RangeIndex
