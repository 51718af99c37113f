import Warehouse.Proofs.Log.Checksums
import Warehouse.Proofs.Log.Frames

/-! # Damaged frames

A frame of which neighbouring bytes of the body were changed, or any bytes of the checksum, is
reported by its reader. No record is made of it. -/

namespace Warehouse.Log

/-- As many bytes, of which some were changed. All that were are at the given places. -/
structure Damaged (bytes damaged : List UInt8) (places : Nat → Prop) : Prop where
  length_eq : damaged.length = bytes.length
  ne : damaged ≠ bytes
  places_of_ne : ∀ position, damaged[position]? ≠ bytes[position]? → places position

namespace Damaged

variable {bytes damaged : List UInt8} {places places' : Nat → Prop}

/-- A part without the places of the damage is what it was. -/
theorem part_eq (harmed : Damaged bytes damaged places) (low count : Nat)
    (apart : ∀ position, places position → position < low ∨ low + count ≤ position) :
    (damaged.drop low).take count = (bytes.drop low).take count := by
  apply List.ext_getElem?
  intro position
  rw [List.getElem?_take, List.getElem?_take]
  by_cases inside : position < count
  · rw [if_pos inside, if_pos inside, List.getElem?_drop, List.getElem?_drop]
    by_contra differ
    have here := apart _ (harmed.places_of_ne _ differ)
    omega
  · rw [if_neg inside, if_neg inside]

/-- What is in front of the damage is what it was. -/
theorem take_eq (harmed : Damaged bytes damaged places) {count : Nat}
    (behind : ∀ position, places position → count ≤ position) : damaged.take count = bytes.take count := by
  have same := harmed.part_eq 0 count fun position here =>
    .inr ((Nat.zero_add count).symm ▸ behind position here)
  rwa [List.drop_zero, List.drop_zero] at same

/-- What is behind the damage is what it was. -/
theorem drop_eq (harmed : Damaged bytes damaged places) {low : Nat}
    (before : ∀ position, places position → position < low) : damaged.drop low = bytes.drop low := by
  have same := harmed.part_eq low bytes.length fun position here => .inl (before position here)
  have all : (damaged.drop low).length ≤ bytes.length := by
    rw [List.length_drop, harmed.length_eq]
    exact Nat.sub_le _ _
  have all' : (bytes.drop low).length ≤ bytes.length := by
    rw [List.length_drop]
    exact Nat.sub_le _ _
  rwa [List.take_of_length_le all, List.take_of_length_le all'] at same

/-- The damage of a part, counted from where the part begins. -/
theorem part (harmed : Damaged bytes damaged places) (low count : Nat)
    (inside : ∀ position, places position → low ≤ position ∧ position < low + count) :
    Damaged ((bytes.drop low).take count) ((damaged.drop low).take count) fun position => places (low + position) := by
  have front := harmed.take_eq fun position here => (inside position here).1
  have back := harmed.drop_eq fun position here => (inside position here).2
  refine ⟨?_, ?_, ?_⟩
  · simp only [List.length_take, List.length_drop, harmed.length_eq]
  · intro same
    apply harmed.ne
    rw [← List.take_append_drop low damaged, ← List.take_append_drop count (damaged.drop low), List.drop_drop,
      front, same, back, ← List.drop_drop, List.take_append_drop, List.take_append_drop]
  · intro position differ
    rw [List.getElem?_take, List.getElem?_take] at differ
    split at differ
    · rw [List.getElem?_drop, List.getElem?_drop] at differ
      exact harmed.places_of_ne _ differ
    · exact absurd rfl differ

theorem mono (harmed : Damaged bytes damaged places) (weaker : ∀ position, places position → places' position) :
    Damaged bytes damaged places' :=
  ⟨harmed.length_eq, harmed.ne, fun position differ => weaker position (harmed.places_of_ne position differ)⟩

/-- Damage within four neighbouring bytes changes the checksum. -/
theorem crc32_ne {start : Nat}
    (harmed : Damaged bytes damaged fun position => start ≤ position ∧ position < start + 4) :
    crc32 damaged ≠ crc32 bytes := by
  have front := harmed.take_eq fun position here => here.1
  have back := harmed.drop_eq fun position here => here.2
  have window := harmed.part start 4 fun position here => here
  have short : ((damaged.drop start).take 4).length ≤ 4 := List.length_take_le 4 _
  have cut : ∀ list : List UInt8,
      list = list.take start ++ ((list.drop start).take 4 ++ list.drop (start + 4)) := by
    intro list
    rw [← List.drop_drop, List.take_append_drop, List.take_append_drop]
  rw [cut damaged, cut bytes, front, back]
  exact crc32_window_ne window.length_eq short window.ne

end Damaged

namespace Record

/-- The places of a frame where four neighbouring bytes of the body stand, or as many of them as there are. -/
def Window (record : Record) (start position : Nat) : Prop :=
  start ≤ position ∧ position < start + 4 ∧ 4 ≤ position ∧ position < 4 + record.encode.length

/-- The places of a frame where the checksum stands. -/
def Trailer (record : Record) (position : Nat) : Prop := 4 + record.encode.length ≤ position

instance (record : Record) (start position : Nat) : Decidable (record.Window start position) :=
  inferInstanceAs (Decidable (_ ∧ _))

instance (record : Record) (position : Nat) : Decidable (record.Trailer position) :=
  inferInstanceAs (Decidable (_ ≤ _))

/-- The bytes that stand where the body of the record's frame does. -/
def bodyOf (record : Record) (frame : List UInt8) : List UInt8 := (frame.drop 4).take record.encode.length

/-- The number that stands where the checksum of the record's frame does. -/
def sumOf (record : Record) (frame : List UInt8) : Nat := ofLittleEndian (frame.drop (4 + record.encode.length))

end Record

section Frames

variable {record : Record} {frame : List UInt8} {places : Nat → Prop}

theorem bodyOf_encodeFrame (record : Record) : record.bodyOf (encodeFrame record) = record.encode := by
  have front : (littleEndian 4 record.encode.length).length = 4 := length_littleEndian _ _
  rw [Record.bodyOf, encodeFrame, List.append_assoc, List.drop_left' front, List.take_left]

theorem drop_encodeFrame (record : Record) :
    (encodeFrame record).drop (4 + record.encode.length) = littleEndian 4 (crc32 record.encode).toNat := by
  have front : (littleEndian 4 record.encode.length).length = 4 := length_littleEndian _ _
  rw [encodeFrame, List.append_assoc, ← List.drop_drop, List.drop_left' front, List.drop_left]

/-- A frame that was damaged behind its length is refused when its checksum is not that of its body. -/
theorem decodeFrame_of_sum_ne (fits : record.Fits) (harmed : Damaged (encodeFrame record) frame places)
    (behind : ∀ position, places position → 4 ≤ position)
    (differ : record.sumOf frame ≠ (crc32 (record.bodyOf frame)).toNat) (rest : List UInt8) :
    decodeFrame (frame ++ rest) =
      .error (mismatched (record.sumOf frame) (crc32 (record.bodyOf frame)).toNat) := by
  have front : (littleEndian 4 record.encode.length).length = 4 := length_littleEndian _ _
  have long : frame.length = record.encode.length + 8 := harmed.length_eq.trans (length_encodeFrame record)
  have body_length : (record.bodyOf frame).length = record.encode.length := by
    rw [Record.bodyOf, List.length_take, List.length_drop]
    omega
  have sum_length : (frame.drop (4 + record.encode.length)).length = 4 := by
    rw [List.length_drop]
    omega
  have length_eq : frame.take 4 = littleEndian 4 record.encode.length := by
    rw [harmed.take_eq behind, encodeFrame, List.append_assoc, List.take_left' front]
  have frame_eq : frame = littleEndian 4 (record.bodyOf frame).length ++
      (record.bodyOf frame ++ frame.drop (4 + record.encode.length)) := by
    rw [body_length, ← length_eq, Record.bodyOf, ← List.drop_drop, List.take_append_drop, List.take_append_drop]
  have positive : 0 < (record.bodyOf frame).length := body_length ▸ record.length_encode_pos
  have limit : (record.bodyOf frame).length ≤ maxBodyLength := body_length ▸ fits
  calc decodeFrame (frame ++ rest)
      = decodeFrame (littleEndian 4 (record.bodyOf frame).length ++
          (record.bodyOf frame ++ (frame.drop (4 + record.encode.length) ++ rest))) := by
        conv_lhs => rw [frame_eq]
        rw [List.append_assoc, List.append_assoc]
    _ = .error (mismatched (record.sumOf frame) (crc32 (record.bodyOf frame)).toNat) := by
        rw [decodeFrame_parts positive limit sum_length, ← Record.sumOf, if_pos differ]

/-- Damage within four neighbouring bytes of the body shows: the checksum is still that of the old body. -/
theorem sumOf_ne_of_window {start : Nat} (harmed : Damaged (encodeFrame record) frame (record.Window start)) :
    record.sumOf frame ≠ (crc32 (record.bodyOf frame)).toNat := by
  have sum_eq : record.sumOf frame = (crc32 record.encode).toNat := by
    rw [Record.sumOf, harmed.drop_eq fun position here => here.2.2.2, drop_encodeFrame, ofLittleEndian_littleEndian]
    exact Nat.mod_eq_of_lt (UInt32.toNat_lt _)
  have body : Damaged record.encode (record.bodyOf frame) fun position =>
      start - 4 ≤ position ∧ position < start - 4 + 4 := by
    have part := harmed.part 4 record.encode.length fun position here => here.2.2
    rw [← Record.bodyOf, bodyOf_encodeFrame] at part
    refine part.mono fun position here => ?_
    obtain ⟨above, below, -, -⟩ := here
    constructor
    · omega
    · omega
  intro same
  rw [sum_eq, UInt32.toNat_inj] at same
  exact body.crc32_ne same.symm

/-- Damage to the checksum shows: the body is what it was. -/
theorem sumOf_ne_of_trailer (harmed : Damaged (encodeFrame record) frame record.Trailer) :
    record.sumOf frame ≠ (crc32 (record.bodyOf frame)).toNat := by
  have body_eq : record.bodyOf frame = record.encode := by
    rw [Record.bodyOf, harmed.part_eq 4 record.encode.length fun position here => .inr here]
    exact bodyOf_encodeFrame record
  have front_eq := harmed.take_eq fun position here => here
  have word : (littleEndian 4 (crc32 record.encode).toNat).length = 4 := length_littleEndian _ _
  have length : (frame.drop (4 + record.encode.length)).length =
      (littleEndian 4 (crc32 record.encode).toNat).length := by
    rw [List.length_drop, harmed.length_eq, length_encodeFrame, word]
    simp only [frameOverhead]
    omega
  intro same
  have sum_eq : ofLittleEndian (littleEndian 4 (crc32 record.encode).toNat) = (crc32 record.encode).toNat := by
    rw [ofLittleEndian_littleEndian]
    exact Nat.mod_eq_of_lt (UInt32.toNat_lt _)
  rw [body_eq, ← sum_eq] at same
  have back_eq := ofLittleEndian_inj length same
  apply harmed.ne
  rw [← List.take_append_drop (4 + record.encode.length) frame, front_eq, back_eq, ← drop_encodeFrame,
    List.take_append_drop]

/-- Whatever follows it, a frame is refused after bytes of its body were changed within four neighbouring ones, or
any bytes of its checksum. The report names the checksum that stands there and that of the body that stands there. -/
theorem decodeFrame_damaged (fits : record.Fits)
    (harmed : (∃ start, Damaged (encodeFrame record) frame (record.Window start)) ∨
      Damaged (encodeFrame record) frame record.Trailer) (rest : List UInt8) :
    record.sumOf frame ≠ (crc32 (record.bodyOf frame)).toNat ∧
      decodeFrame (frame ++ rest) =
        .error (mismatched (record.sumOf frame) (crc32 (record.bodyOf frame)).toNat) := by
  rcases harmed with ⟨start, window⟩ | trailer
  · have differ := sumOf_ne_of_window window
    exact ⟨differ, decodeFrame_of_sum_ne fits window (fun position here => here.2.2.1) differ rest⟩
  · have differ := sumOf_ne_of_trailer trailer
    have behind : ∀ position, record.Trailer position → 4 ≤ position := fun position here =>
      Nat.le_trans (Nat.le_add_right 4 _) here
    exact ⟨differ, decodeFrame_of_sum_ne fits trailer behind differ rest⟩

/-- The second and the last of four neighbouring bytes of a body are changed, and the second byte of a checksum. -/
theorem decodeFrame_damaged_changedBytes :
    let record : Record := .insert 64 32 false 1 2 1 [64, 0, 0, 0, 9, 9] true
    let changed := ((encodeFrame record).set 6 0xDF).set 8 0xFF
    let resummed := (encodeFrame record).set 20 0
    record.Fits ∧ Damaged (encodeFrame record) changed (record.Window 5) ∧
      Damaged (encodeFrame record) resummed record.Trailer ∧
      decodeFrame changed = .error (mismatched 0x74E2D962 0x92B919AE) ∧
      decodeFrame (resummed ++ changed) = .error (mismatched 0x74E20062 0x74E2D962) := by
  intro record changed resummed
  have fits : record.Fits := by decide
  have window : Damaged (encodeFrame record) changed (record.Window 5) := by
    refine ⟨by decide, by decide, fun position differ => ?_⟩
    have place : position = 6 ∨ position = 8 := by
      by_contra other
      obtain ⟨not_six, not_eight⟩ := not_or.mp other
      exact differ (by rw [List.getElem?_set_ne (Ne.symm not_eight), List.getElem?_set_ne (Ne.symm not_six)])
    rcases place with rfl | rfl <;> decide
  have trailer : Damaged (encodeFrame record) resummed record.Trailer := by
    refine ⟨by decide, by decide +kernel, fun position differ => ?_⟩
    have place : position = 20 := by
      by_contra other
      exact differ (List.getElem?_set_ne (Ne.symm other))
    subst place
    decide
  obtain ⟨-, refused⟩ := decodeFrame_damaged fits (.inl ⟨5, window⟩) []
  obtain ⟨-, refused'⟩ := decodeFrame_damaged fits (.inr trailer) changed
  rw [List.append_nil] at refused
  have expected : record.sumOf changed = 0x74E2D962 := by decide +kernel
  have found : (crc32 (record.bodyOf changed)).toNat = 0x92B919AE := by decide +kernel
  have expected' : record.sumOf resummed = 0x74E20062 := by decide +kernel
  have found' : (crc32 (record.bodyOf resummed)).toNat = 0x74E2D962 := by decide +kernel
  rw [expected, found] at refused
  rw [expected', found'] at refused'
  exact ⟨fits, window, trailer, refused, refused'⟩

end Frames

end Warehouse.Log
