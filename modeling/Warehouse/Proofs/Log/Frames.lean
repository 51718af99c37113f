import Warehouse.Log.Writer
import Warehouse.Proofs.Log.Bodies

/-! # Reading a log back

A frame is read back from the front of a log, so that a log whose frames stand one after the
other gives its records with the positions where their frames end. A writer at the end of its
log adds a frame to it and keeps the bytes before. -/

namespace Warehouse.Log

/-! ## Frames -/

theorem length_varint_le (value : Nat) : (Varint.encode value).length ≤ 9 := by
  rw [Varint.encode]
  split
  · exact (by decide : 1 ≤ 9)
  · rw [List.length_cons, length_littleEndian]
    cases Varint.widthOf value <;> decide

theorem varint_pos (value : Nat) : 0 < (Varint.encode value).length := by
  rw [Varint.encode]
  split
  · exact Nat.one_pos
  · exact Nat.succ_pos _

/-- A record whose body is not too long to be read. -/
def Record.Fits (record : Record) : Prop := record.encode.length ≤ maxBodyLength

instance (record : Record) : Decidable record.Fits := inferInstanceAs (Decidable (_ ≤ maxBodyLength))

/-- A record whose tuple fits on a page. -/
def Record.Short (record : Record) : Prop := record.stored.length < 2 ^ 15

/-- The tuple is a part of the body. -/
theorem Record.length_stored_le (record : Record) : record.stored.length ≤ record.encode.length := by
  cases record with
  | insert heapBlock pagesPerRange appendOnly mapBlock block offset tuple freshPage =>
      simp only [stored, encode, Body.encodeTuple, List.length_append]
      omega
  | update heapBlock pagesPerRange appendOnly mapBlock oldBlock oldOffset newBlock newOffset tuple
      freshPage =>
      simp only [stored, encode, Body.encodeTuple, List.length_append]
      omega
  | createIndex => exact Nat.zero_le _
  | extendMap => exact Nat.zero_le _
  | desummarize => exact Nat.zero_le _

theorem Record.length_encode_pos (record : Record) : 0 < record.encode.length := by
  obtain ⟨kind, fields, eq⟩ : ∃ kind fields, record.encode = Body.encode32 kind ++ fields := by
    cases record <;> exact ⟨_, _, by simp only [encode, List.append_assoc]; rfl⟩
  rw [eq, List.length_append]
  exact Nat.add_pos_left (varint_pos kind.toNat) _

theorem Record.Short.fits {record : Record} (short : record.Short) : record.Fits := by
  have bound := length_varint_le
  have flag : ∀ value, (Body.encodeFlag value).length = 1 := fun _ => rfl
  have room : 2 ^ 15 + 99 ≤ maxBodyLength := by decide
  rw [Short] at short
  rw [Fits]
  cases record with
  | createIndex pagesPerRange appendOnly =>
      have h := bound (UInt32.toNat 0)
      have h' := bound pagesPerRange.toNat
      simp only [encode, Body.encode32, List.length_append, flag]
      omega
  | extendMap target appendOnly sequence logicalPage previousTail =>
      have h := bound (UInt32.toNat 1)
      have h1 := bound target.toNat
      have h2 := bound sequence.toNat
      have h3 := bound logicalPage.toNat
      have h4 := bound previousTail.toNat
      simp only [encode, Body.encode32, List.length_append, flag]
      omega
  | insert heapBlock pagesPerRange appendOnly mapBlock block offset tuple freshPage =>
      have h := bound (UInt32.toNat 2)
      have h1 := bound heapBlock.toNat
      have h2 := bound pagesPerRange.toNat
      have h3 := bound mapBlock.toNat
      have h4 := bound block.toNat
      have h5 := bound offset.toNat
      have h6 := bound tuple.length
      simp only [stored] at short
      simp only [encode, Body.encode32, Body.encode16, Body.encodeTuple, List.length_append, flag]
      omega
  | update heapBlock pagesPerRange appendOnly mapBlock oldBlock oldOffset newBlock newOffset tuple
      freshPage =>
      have h := bound (UInt32.toNat 3)
      have h1 := bound heapBlock.toNat
      have h2 := bound pagesPerRange.toNat
      have h3 := bound mapBlock.toNat
      have h4 := bound oldBlock.toNat
      have h5 := bound oldOffset.toNat
      have h6 := bound newBlock.toNat
      have h7 := bound newOffset.toNat
      have h8 := bound tuple.length
      simp only [stored] at short
      simp only [encode, Body.encode32, Body.encode16, Body.encodeTuple, List.length_append, flag]
      omega
  | desummarize pagesPerRange appendOnly heapBlock mapBlock block offset =>
      have h := bound (UInt32.toNat 4)
      have h1 := bound pagesPerRange.toNat
      have h2 := bound heapBlock.toNat
      have h3 := bound mapBlock.toNat
      have h4 := bound block.toNat
      have h5 := bound offset.toNat
      simp only [encode, Body.encode32, Body.encode16, List.length_append, flag]
      omega

theorem length_encodeFrame (record : Record) :
    (encodeFrame record).length = record.encode.length + frameOverhead := by
  simp only [encodeFrame, List.length_append, length_littleEndian, frameOverhead]
  omega

theorem isEmpty_drop {bytes : List UInt8} {count : Nat} (h : count < bytes.length) :
    (bytes.drop count).isEmpty = false := by
  rw [List.isEmpty_eq_false_iff, ne_eq, List.drop_eq_nil_iff]
  omega

/-- What the reader says to a checksum that is not that of the body. -/
def mismatched (expected found : Nat) : Failure :=
  .error (.log s!"checksum mismatch: expected {hexLower 8 expected}, found {hexLower 8 found}")

/-- A reader takes a frame apart into its length, its body and four bytes for the checksum, and reads the
record when the checksum is that of the body. -/
theorem decodeFrame_parts {body sum : List UInt8} (positive : 0 < body.length) (limit : body.length ≤ maxBodyLength)
    (word : sum.length = 4) (rest : List UInt8) :
    decodeFrame (littleEndian 4 body.length ++ (body ++ (sum ++ rest))) =
      if ofLittleEndian sum ≠ (crc32 body).toNat then .error (mismatched (ofLittleEndian sum) (crc32 body).toNat)
      else (fun read => some ⟨read.1, body.length + frameOverhead, rest⟩) <$> Record.read body := by
  have front : (littleEndian 4 body.length).length = 4 := length_littleEndian _ _
  have size : (littleEndian 4 body.length ++ (body ++ (sum ++ rest))).length =
      body.length + frameOverhead + rest.length := by
    simp only [List.length_append, front, word, frameOverhead]
    omega
  have length_eq : ofLittleEndian ((littleEndian 4 body.length ++ (body ++ (sum ++ rest))).take 4) = body.length := by
    rw [List.take_left' front, ofLittleEndian_littleEndian, Nat.mod_eq_of_lt]
    exact Nat.lt_of_le_of_lt limit (by decide)
  have body_eq : ((littleEndian 4 body.length ++ (body ++ (sum ++ rest))).drop 4).take body.length = body := by
    rw [List.drop_left' front, List.take_left]
  have rest_eq : (littleEndian 4 body.length ++ (body ++ (sum ++ rest))).drop (4 + body.length) = sum ++ rest := by
    rw [← List.drop_drop, List.drop_left' front, List.drop_left]
  have valid : ¬ (body.length = 0 ∨ maxBodyLength < body.length) := by omega
  simp only [decodeFrame, length_eq, body_eq, rest_eq, List.take_left' word, List.drop_left' word]
  rw [isEmpty_drop (by rw [size]; simp only [frameOverhead]; omega), if_neg valid,
    isEmpty_drop (by rw [size]; simp only [frameOverhead]; omega)]
  simp only [Bool.false_eq_true, if_false]
  by_cases differ : ofLittleEndian sum ≠ (crc32 body).toNat
  · rw [if_pos differ, if_pos differ]
    rfl
  · rw [if_neg differ, if_neg differ]
    cases Record.read body <;> rfl

/-- A frame is read back from the front of a log. -/
theorem decodeFrame_encodeFrame (record : Record) (fits : record.Fits) (rest : List UInt8) :
    decodeFrame (encodeFrame record ++ rest) =
      .ok (some ⟨record, (encodeFrame record).length, rest⟩) := by
  have limit : record.encode.length ≤ maxBodyLength := fits
  have crc_eq : ofLittleEndian (littleEndian 4 (crc32 record.encode).toNat) = (crc32 record.encode).toNat := by
    rw [ofLittleEndian_littleEndian]
    exact Nat.mod_eq_of_lt (UInt32.toNat_lt _)
  have small : record.stored.length < 2 ^ 63 :=
    Nat.lt_of_le_of_lt (Nat.le_trans record.length_stored_le limit) (by decide)
  have read := record.reads_encode small []
  rw [List.append_nil] at read
  have bytes_eq : encodeFrame record ++ rest = littleEndian 4 record.encode.length ++
      (record.encode ++ (littleEndian 4 (crc32 record.encode).toNat ++ rest)) := by
    simp only [encodeFrame, List.append_assoc]
  rw [bytes_eq, decodeFrame_parts record.length_encode_pos limit (length_littleEndian _ _), crc_eq,
    if_neg (not_not_intro rfl), read, length_encodeFrame]
  rfl

/-! ## Logs -/

/-- The bytes of the frames of records. -/
def framesOf (records : List (Lsn × Record)) : List UInt8 :=
  records.flatMap fun entry => encodeFrame entry.2

/-- Every record stands with the position where its frame ends. -/
def Aligned : Nat → List (Lsn × Record) → Prop
  | _, [] => True
  | start, (lsn, record) :: rest =>
      lsn = UInt64.ofNat (start + (encodeFrame record).length) ∧
        Aligned (start + (encodeFrame record).length) rest

theorem framesOf_cons (entry : Lsn × Record) (records : List (Lsn × Record)) :
    framesOf (entry :: records) = encodeFrame entry.2 ++ framesOf records :=
  List.flatMap_cons

theorem aligned_append {start : Nat} {front back : List (Lsn × Record)} :
    Aligned start (front ++ back) ↔ Aligned start front ∧ Aligned (start + (framesOf front).length) back := by
  induction front generalizing start with
  | nil =>
      simp only [List.nil_append, Aligned, true_and]
      rfl
  | cons entry front ih =>
      rw [List.cons_append, Aligned, Aligned, ih, framesOf_cons, List.length_append, Nat.add_assoc, and_assoc]

theorem framesOf_append (front back : List (Lsn × Record)) :
    framesOf (front ++ back) = framesOf front ++ framesOf back :=
  List.flatMap_append

theorem length_le_framesOf (records : List (Lsn × Record)) : records.length ≤ (framesOf records).length := by
  induction records with
  | nil => exact Nat.le_refl 0
  | cons entry records ih =>
      rw [framesOf_cons, List.length_append, List.length_cons, length_encodeFrame]
      simp only [frameOverhead]
      omega

/-- The records of complete frames are read before what follows them. -/
theorem decodeFrames_framesOf {start : Nat} {records : List (Lsn × Record)} (aligned : Aligned start records)
    (fits : ∀ entry ∈ records, entry.2.Fits) (rest : List UInt8) (count : Nat) :
    decodeFrames start (framesOf records ++ rest) (records.length + count) =
      (records ++ ·) <$> decodeFrames (start + (framesOf records).length) rest count := by
  induction records generalizing start with
  | nil =>
      rw [List.length_nil, Nat.zero_add]
      change decodeFrames start rest count = ([] ++ ·) <$> decodeFrames start rest count
      cases decodeFrames start rest count <;> rfl
  | cons entry records ih =>
      obtain ⟨lsn, record⟩ := entry
      obtain ⟨rfl, aligned⟩ := aligned
      have later := ih aligned (fun entry mem => fits entry (List.mem_cons_of_mem _ mem))
      have length : (records.length + 1) + count = (records.length + count) + 1 := by omega
      rw [List.length_cons, length, framesOf_cons, List.append_assoc, decodeFrames,
        decodeFrame_encodeFrame record (fits _ List.mem_cons_self), List.length_append, ← Nat.add_assoc]
      simp only [bind, Except.bind, later]
      cases decodeFrames (start + (encodeFrame record).length + (framesOf records).length) rest count <;> rfl

/-- Records are read up to where no complete frame follows. -/
theorem decodeFrames_append {start count : Nat} {records : List (Lsn × Record)} {rest : List UInt8}
    (aligned : Aligned start records) (fits : ∀ entry ∈ records, entry.2.Fits) (enough : records.length ≤ count)
    (ends : decodeFrame rest = .ok none) : decodeFrames start (framesOf records ++ rest) count = .ok records := by
  obtain ⟨more, rfl⟩ := Nat.exists_eq_add_of_le enough
  have nothing : ∀ start, decodeFrames start rest more = .ok [] := by
    intro start
    cases more with
    | zero => rfl
    | succ more =>
        rw [decodeFrames, ends]
        rfl
  rw [decodeFrames_framesOf aligned fits, nothing]
  exact congrArg Except.ok (List.append_nil records)

/-- A log that ends with an incomplete frame gives back the records before it. -/
theorem decodeLog_append {records : List (Lsn × Record)} {rest : List UInt8} (aligned : Aligned 0 records)
    (fits : ∀ entry ∈ records, entry.2.Fits) (ends : decodeFrame rest = .ok none) :
    decodeLog (framesOf records ++ rest) = .ok records := by
  have enough : records.length ≤ (framesOf records ++ rest).length := by
    rw [List.length_append]
    exact Nat.le_add_right_of_le (length_le_framesOf records)
  exact decodeFrames_append aligned fits enough ends

/-- A log gives back the records that were written to it. -/
theorem decodeLog_framesOf {records : List (Lsn × Record)} (aligned : Aligned 0 records)
    (fits : ∀ entry ∈ records, entry.2.Fits) : decodeLog (framesOf records) = .ok records := by
  have read := decodeLog_append aligned fits (show decodeFrame [] = .ok none from rfl)
  rwa [List.append_nil] at read

/-! ## Writers -/

theorem toList_pushAll (image : ByteArray) (bytes : List UInt8) :
    (pushAll image bytes).data.toList = image.data.toList ++ bytes := by
  induction bytes generalizing image with
  | nil => rw [pushAll, List.foldl_nil, List.append_nil]
  | cons byte bytes ih =>
      rw [pushAll, List.foldl_cons, ← pushAll, ih, ByteArray.push, Array.toList_push, List.append_assoc]
      rfl

theorem toList_putBytes {file : ByteArray} {pos : Nat} (at_end : pos = file.size) (bytes : List UInt8) :
    (putBytes file pos bytes).data.toList = file.data.toList ++ bytes := by
  induction bytes generalizing file pos with
  | nil => rw [putBytes, List.append_nil]
  | cons byte bytes ih =>
      have beyond : ¬ pos < file.size := by omega
      have size : pos + 1 = (file.push byte).size := by
        rw [ByteArray.size_push, at_end]
      rw [putBytes, putByte, dif_neg beyond, ih size, ByteArray.push, Array.toList_push, List.append_assoc]
      rfl

theorem toList_writeAt {file : ByteArray} {pos : Nat} (at_end : pos = file.size) (bytes : List UInt8) :
    (writeAt file pos bytes).data.toList = file.data.toList ++ bytes := by
  have none : pos - file.size = 0 := by omega
  rw [writeAt, none, List.replicate_zero, pushAll, List.foldl_nil]
  exact toList_putBytes at_end bytes

namespace Writer

/-- Where the next record counts from. -/
def position : Writer → Nat
  | .memory image => image.size
  | .file position _ => position

/-- The writer counts from the end of its log. -/
def AtEnd (writer : Writer) (file : ByteArray) : Prop := writer.position = (writer.contents file).length

/-- The writer is at the start of a log without records. -/
structure Fresh (writer : Writer) (file : ByteArray) : Prop where
  position : writer.position = 0
  contents : writer.contents file = []

theorem fresh_memory : (memory .empty).Fresh .empty := ⟨rfl, rfl⟩

theorem fresh_file (appends : Bool) : (file 0 appends).Fresh .empty := ⟨rfl, rfl⟩

theorem Fresh.atEnd {writer : Writer} {file : ByteArray} (fresh : writer.Fresh file) : writer.AtEnd file := by
  rw [AtEnd, fresh.position, fresh.contents, List.length_nil]

theorem atEnd_of_none_eq (file : ByteArray) : ∀ writer : Writer, none = some writer → writer.AtEnd file := by
  rintro _ ⟨⟩

/-- If there is a log, it is that one. -/
theorem Fresh.atEnd_of_some_eq {writer : Writer} {file : ByteArray} (fresh : writer.Fresh file) :
    ∀ other, some writer = some other → other.AtEnd file := by
  rintro other ⟨⟩
  exact fresh.atEnd

variable {writer writer' : Writer} {file file' : ByteArray} {record : Record} {lsn : Lsn}

/-- A record stands at the position behind its frame. -/
theorem position_append (h : writer.append file record = (lsn, writer', file')) :
    lsn = UInt64.ofNat (writer.position + (encodeFrame record).length) ∧
      writer'.position = writer.position + (encodeFrame record).length := by
  cases writer with
  | memory image =>
      obtain ⟨rfl, rest⟩ := Prod.mk.inj h
      obtain ⟨rfl, rfl⟩ := Prod.mk.inj rest
      have length_eq : ∀ image : ByteArray, image.data.toList.length = image.size := fun _ => rfl
      have size : (pushAll image (encodeFrame record)).size = image.size + (encodeFrame record).length := by
        rw [← length_eq, toList_pushAll, List.length_append, length_eq]
      exact ⟨congrArg UInt64.ofNat size, size⟩
  | file position appends =>
      obtain ⟨rfl, rest⟩ := Prod.mk.inj h
      obtain ⟨rfl, rfl⟩ := Prod.mk.inj rest
      exact ⟨rfl, rfl⟩

/-- A writer at the end of its log adds the frame of the record there. -/
theorem append_spec (at_end : writer.AtEnd file) (h : writer.append file record = (lsn, writer', file')) :
    lsn = UInt64.ofNat (writer.position + (encodeFrame record).length) ∧
      writer'.position = writer.position + (encodeFrame record).length ∧
      writer'.contents file' = writer.contents file ++ encodeFrame record := by
  obtain ⟨lsn_eq, position_eq⟩ := position_append h
  refine ⟨lsn_eq, position_eq, ?_⟩
  cases writer with
  | memory image =>
      obtain ⟨-, rest⟩ := Prod.mk.inj h
      obtain ⟨rfl, rfl⟩ := Prod.mk.inj rest
      exact toList_pushAll image (encodeFrame record)
  | file position appends =>
      obtain ⟨-, rest⟩ := Prod.mk.inj h
      obtain ⟨rfl, rfl⟩ := Prod.mk.inj rest
      have here : position = file.size := at_end
      refine toList_writeAt ?_ _
      split
      · rfl
      · exact here

theorem AtEnd.append (at_end : writer.AtEnd file) (h : writer.append file record = (lsn, writer', file')) :
    writer'.AtEnd file' := by
  obtain ⟨-, position, contents⟩ := append_spec at_end h
  rw [AtEnd, position, contents, List.length_append, at_end]

end Writer

end Warehouse.Log
