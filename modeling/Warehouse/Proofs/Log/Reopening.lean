import Warehouse.Proofs.Log.Frames

/-! # Reopening a log

A writer that opens a log file adds its frames behind the last byte. Behind a complete frame they are
read back after the records that were there before. A torn frame at the end of a log is dropped
when the log is read, but it stays in the file: what is logged behind it counts as a part of it, and
is lost as long as it does not fill the torn frame. -/

namespace Warehouse.Log

namespace Writer

/-- Log records one after the other. The records stand with the positions that were returned for
them. -/
def appendAll (writer : Writer) (file : ByteArray) : List Record → List (Lsn × Record) × Writer × ByteArray
  | [] => ([], writer, file)
  | record :: records =>
      let (lsn, writer, file) := writer.append file record
      let (logged, writer, file) := appendAll writer file records
      ((lsn, record) :: logged, writer, file)

/-- The writer that opens a log file. -/
def reopened (file : ByteArray) : Writer := .file file.size true

theorem atEnd_reopened (file : ByteArray) : (reopened file).AtEnd file := rfl

variable {writer writer' : Writer} {file file' : ByteArray} {records : List Record} {logged : List (Lsn × Record)}

/-- A writer at the end of its log adds the frames of the records there, and returns the positions
where they end. -/
theorem appendAll_spec (at_end : writer.AtEnd file) (h : writer.appendAll file records = (logged, writer', file')) :
    logged.map Prod.snd = records ∧ Aligned writer.position logged ∧
      writer'.contents file' = writer.contents file ++ framesOf logged := by
  induction records generalizing writer file logged with
  | nil =>
      obtain ⟨rfl, rest⟩ := Prod.mk.inj h
      obtain ⟨rfl, rfl⟩ := Prod.mk.inj rest
      exact ⟨rfl, trivial, (List.append_nil _).symm⟩
  | cons record records ih =>
      cases first : writer.append file record with
      | mk lsn rest =>
          obtain ⟨middle, between⟩ := rest
          cases later : middle.appendAll between records with
          | mk logged' rest =>
              obtain ⟨last, final⟩ := rest
              rw [appendAll, first] at h
              simp only [later] at h
              obtain ⟨rfl, rest⟩ := Prod.mk.inj h
              obtain ⟨rfl, rfl⟩ := Prod.mk.inj rest
              obtain ⟨lsn_eq, position_eq, contents_eq⟩ := append_spec at_end first
              obtain ⟨records_eq, aligned, contents_eq'⟩ := ih (at_end.append first) later
              rw [position_eq] at aligned
              refine ⟨by rw [List.map_cons, records_eq], ⟨lsn_eq, aligned⟩, ?_⟩
              rw [contents_eq', contents_eq, framesOf_cons, List.append_assoc]

/-- A writer that opens a file leaves it with new frames behind its bytes. -/
theorem appendAll_reopened (h : (reopened file).appendAll file records = (logged, writer', file')) :
    logged.map Prod.snd = records ∧ Aligned file.size logged ∧
      writer'.contents file' = file.data.toList ++ framesOf logged :=
  appendAll_spec (atEnd_reopened file) h

end Writer

section Reading

variable {record : Record} {bytes torn : List UInt8} {old logged : List (Lsn × Record)} {records : List Record}
  {file file' : ByteArray} {writer : Writer}

/-- Bytes that begin like a frame and are not as long are not a complete frame. -/
theorem decodeFrame_incomplete (fits : record.Fits) (begins : bytes.take 4 = (encodeFrame record).take 4)
    (incomplete : bytes.length < (encodeFrame record).length) : decodeFrame bytes = .ok none := by
  have front : (littleEndian 4 record.encode.length).length = 4 := length_littleEndian _ _
  have limit : record.encode.length ≤ maxBodyLength := fits
  have positive := record.length_encode_pos
  have length_eq : ofLittleEndian (bytes.take 4) = record.encode.length := by
    rw [begins, encodeFrame, List.append_assoc, List.take_left' front, ofLittleEndian_littleEndian]
    exact Nat.mod_eq_of_lt (Nat.lt_of_le_of_lt limit (by decide))
  rw [length_encodeFrame] at incomplete
  have valid : ¬ (record.encode.length = 0 ∨ maxBodyLength < record.encode.length) := by omega
  have gone : (bytes.drop (record.encode.length + frameOverhead - 1)).isEmpty = true := by
    rw [List.isEmpty_iff, List.drop_eq_nil_iff]
    omega
  simp only [decodeFrame, length_eq, if_neg valid, gone, if_true]
  split <;> rfl

/-- Bytes that are too few for any frame are not a complete frame. -/
theorem decodeFrame_few (few : bytes.length < frameOverhead) : decodeFrame bytes = .ok none := by
  have gone : (bytes.drop (frameOverhead - 1)).isEmpty = true := by
    rw [List.isEmpty_iff, List.drop_eq_nil_iff]
    omega
  simp only [decodeFrame, gone, if_true]
  rfl

/-- What is left of a frame when its end is missing is not a complete frame, wherever it was cut. -/
theorem decodeFrame_torn (fits : record.Fits) (cut : torn <+: encodeFrame record)
    (proper : torn.length < (encodeFrame record).length) : decodeFrame torn = .ok none := by
  by_cases few : torn.length < frameOverhead
  · exact decodeFrame_few few
  · have word : 4 ≤ torn.length := Nat.le_trans (by decide) (Nat.not_lt.mp few)
    obtain ⟨missing, eq⟩ := cut
    apply decodeFrame_incomplete fits _ proper
    rw [← eq, List.take_append_of_le_length word]

/-- A torn frame at the end of a log is dropped. -/
theorem decodeLog_torn (aligned : Aligned 0 old) (fit : ∀ entry ∈ old, entry.2.Fits) (fits : record.Fits)
    (cut : torn <+: encodeFrame record) (proper : torn.length < (encodeFrame record).length) :
    decodeLog (framesOf old ++ torn) = .ok old :=
  decodeLog_append aligned fit (decodeFrame_torn fits cut proper)

/-- What is logged to a reopened file of complete frames is read back behind the records that were
there, with the positions that were returned for it. -/
theorem decodeLog_reopened (aligned : Aligned 0 old) (fit : ∀ entry ∈ old, entry.2.Fits)
    (file_eq : file.data.toList = framesOf old) (fit' : ∀ record ∈ records, record.Fits)
    (h : (Writer.reopened file).appendAll file records = (logged, writer, file')) :
    decodeLog (writer.contents file') = .ok (old ++ logged) ∧ logged.map Prod.snd = records := by
  obtain ⟨rfl, aligned', contents⟩ := Writer.appendAll_reopened h
  have size : file.size = (framesOf old).length := congrArg List.length file_eq
  have both : Aligned 0 (old ++ logged) := by
    rw [aligned_append, Nat.zero_add, ← size]
    exact ⟨aligned, aligned'⟩
  have all : ∀ entry ∈ old ++ logged, entry.2.Fits := by
    intro entry mem
    rcases List.mem_append.mp mem with before | new
    · exact fit entry before
    · exact fit' entry.2 (List.mem_map_of_mem new)
  refine ⟨?_, rfl⟩
  rw [contents, file_eq, ← framesOf_append]
  exact decodeLog_framesOf both all

/-- What is logged to a reopened file behind a torn frame is lost if it does not fill that frame,
although positions were returned for it. -/
theorem decodeLog_reopened_torn (aligned : Aligned 0 old) (fit : ∀ entry ∈ old, entry.2.Fits)
    (fits : record.Fits) (cut : torn <+: encodeFrame record) (word : 4 ≤ torn.length)
    (file_eq : file.data.toList = framesOf old ++ torn)
    (h : (Writer.reopened file).appendAll file records = (logged, writer, file'))
    (unfilled : torn.length + (framesOf logged).length < (encodeFrame record).length) :
    decodeLog (writer.contents file') = .ok old ∧ logged.map Prod.snd = records := by
  obtain ⟨rfl, -, contents⟩ := Writer.appendAll_reopened h
  obtain ⟨missing, eq⟩ := cut
  refine ⟨?_, rfl⟩
  rw [contents, file_eq, List.append_assoc]
  apply decodeLog_append aligned fit
  apply decodeFrame_incomplete fits
  · rw [← eq, List.take_append_of_le_length word, List.take_append_of_le_length word]
  · rw [List.length_append]
    exact unfilled

/-- Behind the first seven bytes of a frame, logging the same record again makes a log that cannot be
read. -/
example : decodeLog ((encodeFrame (.createIndex 1 false)).take 7 ++ encodeFrame (.createIndex 1 false)) =
    .error (.error (.log "checksum mismatch: expected 00000003, found e65ae853")) := by
  decide +kernel

end Reading

end Warehouse.Log
