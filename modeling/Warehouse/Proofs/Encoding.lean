import Mathlib
import Warehouse.Log.Varint
import Warehouse.RangeIndex.Summary

/-! # What is written is read back

Words, numbers of variable length and summaries are written as bytes. A word that fits is
read back from its bytes, a number of variable length is read back whatever follows it, and
a summary loses nothing in its tuple. -/

namespace Warehouse

theorem ofLittleEndian_littleEndian (count value : Nat) :
    ofLittleEndian (littleEndian count value) = value % 256 ^ count := by
  induction count generalizing value with
  | zero => simp [littleEndian, ofLittleEndian, Nat.mod_one]
  | succ count ih =>
      have byte : (UInt8.ofNat (value % 256)).toNat = value % 256 := by
        simp
      rw [littleEndian, ofLittleEndian, ih, byte, Nat.pow_succ, Nat.mul_comm (256 ^ count) 256,
        Nat.mod_mul]

/-- A number written by its bytes is below the power of 256 they can hold. -/
theorem ofLittleEndian_lt (bytes : List UInt8) : ofLittleEndian bytes < 256 ^ bytes.length := by
  induction bytes with
  | nil => simp [ofLittleEndian]
  | cons byte rest ih =>
      have := byte.toNat_lt
      simp only [ofLittleEndian, List.length_cons, Nat.pow_succ]
      omega

namespace Log.Varint

theorem widthOf_fits {value : Nat} (h : value < 2 ^ 64) : value < 256 ^ (widthOf value).bytes := by
  unfold widthOf
  split
  · simpa [Width.bytes] using ‹value < UInt16.size›
  · split
    · simpa [Width.bytes] using ‹value < UInt32.size›
    · simpa [Width.bytes] using h

/-- A number is read back whatever follows it. -/
theorem read_encode (limit : Width) (value : Nat) (rest : List UInt8)
    (h : value < 256 ^ limit.bytes) : read limit (encode value ++ rest) = .ok (value, rest) := by
  have small : value < 2 ^ 64 := by
    refine Nat.lt_of_lt_of_le h ?_
    cases limit <;> simp [Width.bytes]
  unfold encode
  split
  · rename_i le
    have same : (UInt8.ofNat value).toNat = value := by
      simp only [UInt8.toNat_ofNat']
      omega
    simp only [read, List.cons_append, List.nil_append, same, if_pos le]
  · rename_i gt
    have marker : ¬ (widthOf value).marker.toNat ≤ 250 := by
      cases widthOf value <;> decide
    have width : ¬ limit.bytes < (widthOf value).bytes := by
      unfold widthOf UInt16.size UInt32.size
      split
      · cases limit <;> simp [Width.bytes]
      · split
        · cases limit <;> simp [Width.bytes] at h ⊢
          omega
        · cases limit <;> simp [Width.bytes] at h ⊢ <;> omega
    simp only [read, List.cons_append, if_neg marker, Width.ofMarker_marker, if_neg width]
    simp only [Reader.word, Reader.take, Functor.map, StateT.map]
    have long : ¬ (littleEndian (widthOf value).bytes value ++ rest).length <
        (widthOf value).bytes := by simp
    rw [if_neg long]
    simp [bind, Except.bind, pure, Except.pure, ofLittleEndian_littleEndian,
      Nat.mod_eq_of_lt (widthOf_fits small)]

end Log.Varint

namespace RangeIndex.Summary

theorem decode_encode (summary : Summary) : decode summary.encode = some summary := by
  have length : ¬ summary.encode.length < 4 := by simp [encode]
  have first : summary.encode.take 4 = littleEndian 4 summary.heapBlock.toNat := by
    simp [encode]
  have rest : summary.encode.drop 4 = summary.payload := by simp [encode]
  have fits := summary.heapBlock.toNat_lt
  rw [decode, if_neg length, first, rest, ofLittleEndian_littleEndian,
    Nat.mod_eq_of_lt (by omega)]
  simp

end RangeIndex.Summary

end Warehouse
