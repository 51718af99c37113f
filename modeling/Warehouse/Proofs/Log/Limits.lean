import Warehouse.Proofs.Log.Reopening

/-! # The longest record

The reader of a log refuses every body longer than `maxBodyLength`, while the writer has no limit of its
own. A log is read back exactly when all its records are short enough. The first record that is not makes
the whole log unreadable, together with the records before it. -/

namespace Warehouse.Log

/-- The length of a body can be written in front of it. -/
def Record.Countable (record : Record) : Prop := record.encode.length < 2 ^ 32

/-- A record is too long when its tuple alone is. -/
theorem Record.not_fits_of_stored {record : Record} (long : maxBodyLength < record.stored.length) :
    ¬ record.Fits := by
  intro fits
  exact absurd (Nat.le_trans record.length_stored_le fits) (Nat.not_le.mpr long)

/-- What the reader says to a record that is too long. -/
def tooLong (record : Record) : Failure :=
  .error (.log s!"invalid frame length {record.encode.length}")

section Limits

variable {record : Record} {records : List Record} {old logged : List (Lsn × Record)}
  {writer writer' : Writer} {file file' : ByteArray}

/-- A frame that is too long is refused, whatever follows. -/
theorem decodeFrame_tooLong (countable : record.Countable) (long : ¬ record.Fits) (rest : List UInt8) :
    decodeFrame (encodeFrame record ++ rest) = .error (tooLong record) := by
  have front : (littleEndian 4 record.encode.length).length = 4 := length_littleEndian _ _
  have length_eq : ofLittleEndian ((encodeFrame record ++ rest).take 4) = record.encode.length := by
    rw [encodeFrame, List.append_assoc, List.append_assoc, List.take_left' front, ofLittleEndian_littleEndian]
    exact Nat.mod_eq_of_lt countable
  have size : frameOverhead - 1 < (encodeFrame record ++ rest).length := by
    rw [List.length_append, length_encodeFrame]
    simp only [frameOverhead]
    omega
  have refused : record.encode.length = 0 ∨ maxBodyLength < record.encode.length :=
    .inr (Nat.lt_of_not_le long)
  simp only [decodeFrame, isEmpty_drop size, length_eq, if_pos refused]
  rfl

/-- A record that is too long hides the whole log, whatever is before and behind it. -/
theorem decodeLog_tooLong (aligned : Aligned 0 old) (fits : ∀ entry ∈ old, entry.2.Fits)
    (countable : record.Countable) (long : ¬ record.Fits) (rest : List UInt8) :
    decodeLog (framesOf old ++ (encodeFrame record ++ rest)) = .error (tooLong record) := by
  have enough : old.length + 1 ≤ (framesOf old ++ (encodeFrame record ++ rest)).length := by
    have before := length_le_framesOf old
    rw [List.length_append, List.length_append, length_encodeFrame]
    simp only [frameOverhead]
    omega
  obtain ⟨more, length⟩ := Nat.exists_eq_add_of_le enough
  rw [decodeLog, length, Nat.add_assoc, decodeFrames_framesOf aligned fits, Nat.add_comm 1 more, decodeFrames,
    decodeFrame_tooLong countable long]
  rfl

/-- What a reader makes of records that were logged. -/
def readBack (logged : List (Lsn × Record)) : Except Failure (List (Lsn × Record)) :=
  match logged.find? fun entry => ¬ entry.2.Fits with
  | none => .ok logged
  | some entry => .error (tooLong entry.2)

theorem decodeLog_eq_readBack (aligned : Aligned 0 logged)
    (countable : ∀ entry ∈ logged, entry.2.Countable) : decodeLog (framesOf logged) = readBack logged := by
  rw [readBack]
  split
  · rename_i none_long
    apply decodeLog_framesOf aligned
    intro entry mem
    simpa using List.find?_eq_none.mp none_long entry mem
  · rename_i entry found
    obtain ⟨long, old, later, rfl, fit⟩ := List.find?_eq_some_iff_append.mp found
    rw [framesOf_append, framesOf_cons]
    apply decodeLog_tooLong (aligned_append.mp aligned).1
    · intro entry mem
      simpa using fit entry mem
    · exact countable entry (by simp)
    · simpa using long

/-- A writer accepts every record, but a new log is read back exactly when all its records are short
enough. Otherwise nothing of it can be read. -/
theorem decodeLog_appendAll_eq_readBack (fresh : writer.Fresh file)
    (countable : ∀ record ∈ records, record.Countable)
    (h : writer.appendAll file records = (logged, writer', file')) :
    logged.map Prod.snd = records ∧ decodeLog (writer'.contents file') = readBack logged := by
  obtain ⟨records_eq, aligned, contents⟩ := Writer.appendAll_spec fresh.atEnd h
  rw [fresh.position] at aligned
  rw [fresh.contents, List.nil_append] at contents
  refine ⟨records_eq, ?_⟩
  rw [contents]
  apply decodeLog_eq_readBack aligned
  intro entry mem
  exact countable entry.2 (records_eq ▸ List.mem_map_of_mem mem)

/-- A new log gives back what was logged if and only if all its records are short enough. -/
theorem decodeLog_appendAll_eq_ok_iff (fresh : writer.Fresh file)
    (countable : ∀ record ∈ records, record.Countable)
    (h : writer.appendAll file records = (logged, writer', file')) :
    decodeLog (writer'.contents file') = .ok logged ↔ ∀ record ∈ records, record.Fits := by
  obtain ⟨rfl, read⟩ := decodeLog_appendAll_eq_readBack fresh countable h
  rw [read, readBack]
  constructor
  · intro same record mem
    obtain ⟨entry, logged_mem, rfl⟩ := List.mem_map.mp mem
    split at same
    · rename_i none_long
      simpa using List.find?_eq_none.mp none_long entry logged_mem
    · cases same
  · intro fits
    have none_long : (logged.find? fun entry => ¬ entry.2.Fits) = none := by
      apply List.find?_eq_none.mpr
      intro entry mem
      simpa using fits entry.2 (List.mem_map_of_mem mem)
    rw [none_long]

/-- One tuple longer than any body that is read makes a new log unreadable. -/
theorem decodeLog_appendAll_of_long_tuple (fresh : writer.Fresh file)
    (countable : ∀ record ∈ records, record.Countable)
    (h : writer.appendAll file records = (logged, writer', file'))
    (mem : record ∈ records) (long : maxBodyLength < record.stored.length) :
    ∃ culprit ∈ records, decodeLog (writer'.contents file') = .error (tooLong culprit) := by
  obtain ⟨rfl, read⟩ := decodeLog_appendAll_eq_readBack fresh countable h
  obtain ⟨entry, logged_mem, rfl⟩ := List.mem_map.mp mem
  rw [read, readBack]
  split
  · rename_i none_long
    have fits := List.find?_eq_none.mp none_long entry logged_mem
    exact absurd (by simpa using fits) (Record.not_fits_of_stored long)
  · rename_i culprit found
    exact ⟨culprit.2, List.mem_map_of_mem (List.mem_of_find?_eq_some found), rfl⟩

end Limits

end Warehouse.Log
