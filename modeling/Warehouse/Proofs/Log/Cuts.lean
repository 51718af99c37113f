import Warehouse.Proofs.Log.Reopening

/-! # Cutting a log

The bytes of a log may end anywhere when the system stops. Reading what is there gives the records
whose frames are complete, each with the position that was returned when it was logged, and reading
the whole log gives back everything that was logged. -/

namespace Warehouse.Log

/-- The records with the positions where their frames end, when the first one begins at `start`. -/
def endings (start : Nat) : List Record → List (Nat × Record)
  | [] => []
  | record :: records =>
      let stop := start + (encodeFrame record).length
      (stop, record) :: endings stop records

/-- What a log gives for a record whose frame ends at a position. -/
def stamped (ending : Nat × Record) : Lsn × Record := (UInt64.ofNat ending.1, ending.2)

/-- The bytes that are written for records. -/
def imageOf (records : List Record) : List UInt8 := records.flatMap encodeFrame

section Cuts

variable {record : Record} {records : List Record} {logged : List (Lsn × Record)} {start count : Nat}

theorem imageOf_cons (record : Record) (records : List Record) :
    imageOf (record :: records) = encodeFrame record ++ imageOf records :=
  List.flatMap_cons

theorem length_encodeFrame_pos (record : Record) : 0 < (encodeFrame record).length := by
  rw [length_encodeFrame]
  exact Nat.add_pos_right _ (by decide)

/-- No frame ends before the first one does. -/
theorem le_of_mem_endings {ending : Nat × Record} (mem : ending ∈ endings start records) : start < ending.1 := by
  induction records generalizing start with
  | nil => exact absurd mem List.not_mem_nil
  | cons record records ih =>
      have positive := length_encodeFrame_pos record
      rcases List.mem_cons.mp mem with rfl | later
      · exact Nat.lt_add_of_pos_right positive
      · exact Nat.lt_trans (Nat.lt_add_of_pos_right positive) (ih later)

theorem filter_endings_eq_nil {limit : Nat} (limit_le : limit ≤ start) :
    (endings start records).filter (fun ending => ending.1 ≤ limit) = [] := by
  rw [List.filter_eq_nil_iff]
  intro ending mem le
  have beyond := le_of_mem_endings mem
  have within : ending.1 ≤ limit := of_decide_eq_true le
  omega

/-- The positions that a writer returns are those where the frames end. -/
theorem Aligned.eq_endings (aligned : Aligned start logged) :
    logged = (endings start (logged.map Prod.snd)).map stamped := by
  induction logged generalizing start with
  | nil => rfl
  | cons entry logged ih =>
      obtain ⟨lsn, record⟩ := entry
      obtain ⟨rfl, aligned⟩ := aligned
      rw [List.map_cons, endings, List.map_cons, ← ih aligned]
      rfl

theorem framesOf_eq_imageOf (logged : List (Lsn × Record)) : framesOf logged = imageOf (logged.map Prod.snd) := by
  rw [framesOf, imageOf, List.flatMap_map]

/-- Of frames that were cut somewhere, those are read that are complete. -/
theorem decodeFrames_take (start : Nat) (fits : ∀ record ∈ records, record.Fits) (cut : Nat)
    (enough : ((imageOf records).take cut).length ≤ count) :
    decodeFrames start ((imageOf records).take cut) count =
      .ok (((endings start records).filter fun ending => ending.1 ≤ start + cut).map stamped) := by
  induction records generalizing start cut count with
  | nil =>
      have read : decodeFrames start [] count = .ok [] := by
        cases count <;> rfl
      rw [imageOf, List.flatMap_nil, List.take_nil]
      exact read
  | cons record records ih =>
      have positive := length_encodeFrame_pos record
      have fits' : ∀ record ∈ records, record.Fits := fun record mem => fits record (List.mem_cons_of_mem _ mem)
      rw [imageOf_cons] at enough ⊢
      rw [endings]
      by_cases complete : (encodeFrame record).length ≤ cut
      · -- the first frame is there, and what was cut is behind it
        obtain ⟨more, rfl⟩ := Nat.exists_eq_add_of_le complete
        rw [List.take_length_add_append] at enough ⊢
        rw [List.length_append] at enough
        cases count with
        | zero => omega
        | succ count =>
            have enough : ((imageOf records).take more).length ≤ count := by omega
            have later := ih (start + (encodeFrame record).length) fits' more enough
            have kept : start + (encodeFrame record).length ≤ start + ((encodeFrame record).length + more) := by omega
            rw [decodeFrames, decodeFrame_encodeFrame record (fits record List.mem_cons_self)]
            rw [List.filter_cons, if_pos (decide_eq_true kept), List.map_cons, ← Nat.add_assoc]
            simp only [bind, Except.bind, later]
            rfl
      · -- the first frame is torn, so that no frame is complete
        have short : cut < (encodeFrame record).length := Nat.lt_of_not_le complete
        have torn : decodeFrame ((encodeFrame record).take cut) = .ok none := by
          apply decodeFrame_torn (fits record List.mem_cons_self) (List.take_prefix cut _)
          rw [List.length_take]
          omega
        have gone : ¬ start + (encodeFrame record).length ≤ start + cut := by omega
        have none_kept : (endings (start + (encodeFrame record).length) records).filter
            (fun ending => ending.1 ≤ start + cut) = [] := filter_endings_eq_nil (by omega)
        rw [List.take_append_of_le_length (Nat.le_of_lt short)]
        rw [List.filter_cons, if_neg (by simpa using gone), none_kept]
        cases count with
        | zero => rfl
        | succ count =>
            rw [decodeFrames, torn]
            rfl

/-- A log that was cut anywhere gives the records whose frames are complete. -/
theorem decodeLog_take (fits : ∀ record ∈ records, record.Fits) (cut : Nat) :
    decodeLog ((imageOf records).take cut) =
      .ok (((endings 0 records).filter fun ending => ending.1 ≤ cut).map stamped) := by
  have read := decodeFrames_take 0 fits cut (Nat.le_refl _)
  rwa [Nat.zero_add] at read

/-- What is logged to a new log is read back from any part of it that begins at the front: the records
whose frames end there at the latest, in order, each with the position that was returned for it, which
is the one where its frame ends. The whole log gives back all that was logged. -/
theorem decodeLog_take_appendAll {writer writer' : Writer} {file file' : ByteArray} (fresh : writer.Fresh file)
    (fits : ∀ record ∈ records, record.Fits) (h : writer.appendAll file records = (logged, writer', file'))
    (cut : Nat) :
    writer'.contents file' = imageOf records ∧
      logged = (endings 0 records).map stamped ∧
      decodeLog ((writer'.contents file').take cut) =
        .ok (((endings 0 records).filter fun ending => ending.1 ≤ cut).map stamped) ∧
      decodeLog (writer'.contents file') = .ok logged ∧ logged.map Prod.snd = records := by
  obtain ⟨records_eq, aligned, contents⟩ := Writer.appendAll_spec fresh.atEnd h
  rw [fresh.position] at aligned
  rw [fresh.contents, List.nil_append] at contents
  have fit : ∀ entry ∈ logged, entry.2.Fits := by
    intro entry mem
    exact fits entry.2 (records_eq ▸ List.mem_map_of_mem mem)
  have stops := aligned.eq_endings
  rw [records_eq] at stops
  have image := framesOf_eq_imageOf logged
  rw [records_eq] at image
  refine ⟨contents.trans image, stops, ?_, ?_, records_eq⟩
  · rw [contents, image]
    exact decodeLog_take fits cut
  · rw [contents]
    exact decodeLog_framesOf aligned fit

/-- Three records, among whose fields are the least numbers that need two and four bytes behind a marker, are
logged to a new file, of which the last byte is missing. -/
theorem decodeLog_take_appendAll_torn :
    let records : List Record := [.createIndex 251 true, .insert 65536 250 false 1 2 251 [0, 0, 1, 0, 9] true,
      .desummarize 1 false 4294967295 1 2 65535]
    let new : Writer := .file 0 false
    ∃ logged writer file, new.Fresh .empty ∧ (∀ record ∈ records, record.Fits) ∧
      new.appendAll .empty records = (logged, writer, file) ∧
      logged.map Prod.fst = [13, 41, 62] ∧
      decodeLog ((writer.contents file).take 61) = .ok (logged.take 2) := by
  intro records new
  have fits : ∀ record ∈ records, record.Fits := by decide
  obtain ⟨logged, writer, file, logged_eq⟩ :
      ∃ logged writer file, new.appendAll .empty records = (logged, writer, file) := ⟨_, _, _, rfl⟩
  obtain ⟨-, stops, cut, -, -⟩ := decodeLog_take_appendAll (Writer.fresh_file false) fits logged_eq 61
  refine ⟨logged, writer, file, Writer.fresh_file false, fits, logged_eq, ?_, ?_⟩
  · rw [stops]
    decide
  · rw [cut, stops]
    decide

end Cuts

end Warehouse.Log
