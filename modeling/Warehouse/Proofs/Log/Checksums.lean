import Warehouse.Log.Crc32
import Warehouse.Proofs.Encoding

/-! # What a checksum tells apart

Shifting a bit out of the remainder is linear in exclusive or, and nothing gets lost by it because
the polynomial has its highest bit set. So different remainders stay different whatever bytes
follow. At most four bytes meet the remainder as one word, so that different ones leave different
remainders. Together, two runs of bytes that differ only within four neighbouring bytes have
different checksums. -/

namespace Warehouse

/-- Runs of bytes of one length that stand for the same number are the same. -/
theorem ofLittleEndian_inj {bytes bytes' : List UInt8} (length : bytes.length = bytes'.length)
    (same : ofLittleEndian bytes = ofLittleEndian bytes') : bytes = bytes' := by
  induction bytes generalizing bytes' with
  | nil => exact (List.eq_nil_of_length_eq_zero length.symm).symm
  | cons byte rest ih =>
      obtain ⟨byte', rest', rfl⟩ := List.exists_cons_of_length_eq_add_one length.symm
      have low := byte.toNat_lt
      have low' := byte'.toNat_lt
      simp only [ofLittleEndian] at same
      have first : byte.toNat = byte'.toNat := by omega
      have others : ofLittleEndian rest = ofLittleEndian rest' := by omega
      rw [UInt8.toNat_inj.mp first, ih (Nat.succ.inj length) others]

namespace Log.Crc32

variable {a b : UInt32}

/-! ## Shifts -/

theorem odd_iff (word : UInt32) : word &&& 1 = 1 ↔ word.toNat % 2 = 1 := by
  rw [← UInt32.toNat_inj, UInt32.toNat_and, ← Nat.and_one_is_mod]
  rfl

theorem odd_xor (a b : UInt32) : (a ^^^ b) &&& 1 = 1 ↔ ¬ (a &&& 1 = 1 ↔ b &&& 1 = 1) := by
  rw [odd_iff, odd_iff, odd_iff, UInt32.toNat_xor, Nat.xor_mod_two_eq]
  omega

/-- A shift is linear. -/
theorem shift_xor (a b : UInt32) : shift (a ^^^ b) = shift a ^^^ shift b := by
  have parts : (a ^^^ b) >>> 1 = (a >>> 1) ^^^ (b >>> 1) := UInt32.shiftRight_xor
  by_cases ha : a &&& 1 = 1 <;> by_cases hb : b &&& 1 = 1 <;>
    simp only [shift, odd_xor, ha, hb, parts, if_true, if_false, iff_true, iff_false, not_true, not_false_eq_true]
  · -- both bits meet, and so do the polynomials
    calc (a >>> 1) ^^^ (b >>> 1)
        = (a >>> 1) ^^^ (b >>> 1) ^^^ (polynomial ^^^ polynomial) := by rw [UInt32.xor_self, UInt32.xor_zero]
      _ = ((a >>> 1) ^^^ polynomial) ^^^ ((b >>> 1) ^^^ polynomial) := by ac_rfl
  · ac_rfl
  · ac_rfl

/-- Only the remainder zero is shifted to zero: the highest bit of the polynomial is set, and that of
a word that was moved down is not. -/
theorem shift_eq_zero (h : shift a = 0) : a = 0 := by
  have small : (a >>> 1).toNat = a.toNat / 2 := by
    rw [UInt32.toNat_shiftRight]
    exact Nat.shiftRight_eq_div_pow a.toNat 1
  have bound := a.toNat_lt
  rw [shift] at h
  split at h
  · have same := congrArg UInt32.toNat (UInt32.xor_eq_zero_iff.mp h)
    rw [small] at same
    have high : polynomial.toNat = 3988292384 := rfl
    omega
  · rename_i even
    rw [odd_iff] at even
    have zero := congrArg UInt32.toNat h
    rw [small] at zero
    apply UInt32.toNat_inj.mp
    change a.toNat = 0
    change a.toNat / 2 = 0 at zero
    omega

theorem shift_injective : Function.Injective shift := by
  intro a b same
  have zero : shift (a ^^^ b) = 0 := by
    rw [shift_xor, same, UInt32.xor_self]
  exact UInt32.xor_eq_zero_iff.mp (shift_eq_zero zero)

theorem shifts_xor (count : Nat) (a b : UInt32) : shifts count (a ^^^ b) = shifts count a ^^^ shifts count b := by
  induction count generalizing a b with
  | zero => rfl
  | succ count ih => rw [shifts, shifts, shifts, shift_xor, ih]

theorem shifts_injective (count : Nat) : Function.Injective (shifts count) := by
  induction count with
  | zero => exact Function.injective_id
  | succ count ih => exact ih.comp shift_injective

theorem shifts_add (first count : Nat) (a : UInt32) : shifts (first + count) a = shifts count (shifts first a) := by
  induction first generalizing a with
  | zero => rw [Nat.zero_add, shifts]
  | succ first ih => rw [Nat.succ_add, shifts, shifts, ih]

/-- A word with zeros at its low end is only moved down. -/
theorem shifts_two_pow_mul (count value : Nat) (fits : 2 ^ count * value < UInt32.size) :
    shifts count (UInt32.ofNat (2 ^ count * value)) = UInt32.ofNat value := by
  induction count with
  | zero => rw [pow_zero, one_mul, shifts]
  | succ count ih =>
      have double : 2 ^ (count + 1) * value = 2 * (2 ^ count * value) := by ring
      have bound : 2 ^ count * value < UInt32.size := by omega
      have number : (UInt32.ofNat (2 ^ (count + 1) * value)).toNat = 2 * (2 ^ count * value) := by
        rw [UInt32.toNat_ofNat_of_lt' fits, double]
      have even : ¬ UInt32.ofNat (2 ^ (count + 1) * value) &&& 1 = 1 := by
        rw [odd_iff, number]
        omega
      have half : UInt32.ofNat (2 ^ (count + 1) * value) >>> 1 = UInt32.ofNat (2 ^ count * value) := by
        apply UInt32.toNat_inj.mp
        rw [UInt32.toNat_shiftRight, number, UInt32.toNat_ofNat_of_lt' bound]
        change (2 * (2 ^ count * value)) >>> 1 = 2 ^ count * value
        rw [Nat.shiftRight_eq_div_pow]
        omega
      rw [shifts, shift, if_neg even, half, ih bound]

/-! ## Bytes -/

/-- The low byte of a word and the rest of it. -/
theorem byte_xor_ofNat (byte : UInt8) (value : Nat) :
    byte.toUInt32 ^^^ UInt32.ofNat (2 ^ 8 * value) = UInt32.ofNat (byte.toNat + 256 * value) := by
  have low := byte.toNat_lt
  have numbers : byte.toNat ^^^ (2 ^ 8 * value) = byte.toNat + 256 * value := by
    rw [Nat.add_comm]
    apply Nat.eq_of_testBit_eq
    intro position
    rw [Nat.testBit_xor, Nat.testBit_two_pow_mul, Nat.testBit_two_pow_mul_add value (i := 8) low]
    by_cases inside : position < 8
    · have outside : ¬ 8 ≤ position := by omega
      simp [inside, outside]
    · have beyond : byte.toNat.testBit position = false :=
        Nat.testBit_lt_two_pow (Nat.lt_of_lt_of_le low (Nat.pow_le_pow_right (by decide) (Nat.le_of_not_lt inside)))
      have outside : 8 ≤ position := by omega
      simp [inside, outside, beyond]
  have word : byte.toUInt32 = UInt32.ofNat byte.toNat := by
    rw [UInt32.ofNat_uInt8ToNat]
  rw [word, ← UInt32.ofNat_xor, numbers]

/-- At most four bytes meet the remainder as one word. -/
theorem foldl_feed_eq_shifts {bytes : List UInt8} (short : bytes.length ≤ 4) (remainder : UInt32) :
    bytes.foldl feed remainder =
      shifts (8 * bytes.length) (remainder ^^^ UInt32.ofNat (ofLittleEndian bytes)) := by
  induction bytes generalizing remainder with
  | nil =>
      change remainder = remainder ^^^ 0
      rw [UInt32.xor_zero]
  | cons byte rest ih =>
      have few : rest.length ≤ 3 := Nat.le_of_succ_le_succ short
      have below : ofLittleEndian rest < 256 ^ 3 :=
        Nat.lt_of_lt_of_le (ofLittleEndian_lt rest) (Nat.pow_le_pow_right (by decide) few)
      have fits : 2 ^ 8 * ofLittleEndian rest < UInt32.size := by
        have size : UInt32.size = 2 ^ 8 * 256 ^ 3 := rfl
        omega
      have eight : 8 * (byte :: rest).length = 8 + 8 * rest.length := by
        rw [List.length_cons]
        ring
      calc (byte :: rest).foldl feed remainder
          = shifts (8 * rest.length) (feed remainder byte ^^^ UInt32.ofNat (ofLittleEndian rest)) := by
            rw [List.foldl_cons, ih (Nat.le_succ_of_le few)]
        _ = shifts (8 * rest.length)
              (shifts 8 ((remainder ^^^ byte.toUInt32) ^^^ UInt32.ofNat (2 ^ 8 * ofLittleEndian rest))) := by
            rw [feed, shifts_xor 8 (remainder ^^^ byte.toUInt32), shifts_two_pow_mul 8 _ fits]
        _ = shifts (8 * (byte :: rest).length) (remainder ^^^ UInt32.ofNat (ofLittleEndian (byte :: rest))) := by
            rw [eight, shifts_add, UInt32.xor_assoc, byte_xor_ofNat, ofLittleEndian]

/-- Different remainders stay different whatever bytes follow. -/
theorem foldl_feed_injective (bytes : List UInt8) : Function.Injective fun remainder => bytes.foldl feed remainder := by
  induction bytes with
  | nil => exact Function.injective_id
  | cons byte rest ih =>
      have first : Function.Injective fun remainder => feed remainder byte := by
        intro a b same
        exact (UInt32.xor_left_inj _).mp (shifts_injective 8 same)
      exact ih.comp first

/-- At most four bytes leave different remainders if they are different. -/
theorem foldl_feed_window_injective {bytes bytes' : List UInt8} (length : bytes.length = bytes'.length)
    (short : bytes.length ≤ 4) (remainder : UInt32) (same : bytes.foldl feed remainder = bytes'.foldl feed remainder) :
    bytes = bytes' := by
  have short' : bytes'.length ≤ 4 := length ▸ short
  rw [foldl_feed_eq_shifts short, foldl_feed_eq_shifts short', length] at same
  have words := (UInt32.xor_right_inj _).mp (shifts_injective _ same)
  have fits : ∀ {list : List UInt8}, list.length ≤ 4 → ofLittleEndian list < UInt32.size := by
    intro list few
    exact Nat.lt_of_lt_of_le (ofLittleEndian_lt list) (Nat.pow_le_pow_right (by decide) few)
  have numbers := congrArg UInt32.toNat words
  rw [UInt32.toNat_ofNat_of_lt' (fits short), UInt32.toNat_ofNat_of_lt' (fits short')] at numbers
  exact ofLittleEndian_inj length numbers

end Log.Crc32

namespace Log

/-- Runs of bytes that differ only within four neighbouring bytes have different checksums. -/
theorem crc32_window_ne {front window window' back : List UInt8} (length : window.length = window'.length)
    (short : window.length ≤ 4) (differ : window ≠ window') :
    crc32 (front ++ (window ++ back)) ≠ crc32 (front ++ (window' ++ back)) := by
  intro same
  rw [crc32, crc32, UInt32.xor_left_inj] at same
  simp only [List.foldl_append] at same
  exact differ (Crc32.foldl_feed_window_injective length short _ (Crc32.foldl_feed_injective back same))

end Log

end Warehouse
