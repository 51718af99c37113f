import Warehouse.Log.Body
import Warehouse.Proofs.Encoding

/-! # Reading records back

A reader reads a value from bytes when it gives the value and leaves what follows the bytes.
Readers that do so are put together along the fields of a record, so that every record whose
tuple has a length below `2 ^ 63` is read back from its encoding. -/

namespace Warehouse.Log

variable {α β : Type}

/-- The reader takes the bytes off the front and gives the value. -/
def Reads (reader : Reader α) (bytes : List UInt8) (value : α) : Prop :=
  ∀ rest, reader (bytes ++ rest) = .ok (value, rest)

namespace Reads

variable {reader : Reader α} {front back : List UInt8} {value : α}

theorem bind {next : α → Reader β} {result : β} (h : Reads reader front value)
    (h' : Reads (next value) back result) : Reads (reader >>= next) (front ++ back) result := by
  intro rest
  have first := h (back ++ rest)
  rw [List.append_assoc]
  simp only [Bind.bind, StateT.bind, first, Except.bind]
  exact h' rest

theorem map {f : α → β} (h : Reads reader front value) : Reads (f <$> reader) front (f value) := by
  intro rest
  simp only [Functor.map, StateT.map, h rest, Bind.bind, Except.bind]
  rfl

/-- The last field of a record. -/
theorem last {next : α → β} (h : Reads reader front value) :
    Reads (reader >>= fun value => Pure.pure (next value)) front (next value) := by
  intro rest
  simp only [Bind.bind, StateT.bind, h rest, Except.bind]
  rfl

end Reads

theorem reads_take (bytes : List UInt8) : Reads (Reader.take bytes.length) bytes bytes := by
  intro rest
  have enough : ¬ (bytes ++ rest).length < bytes.length := by
    rw [List.length_append]
    omega
  rw [Reader.take, if_neg enough, List.take_left, List.drop_left]

namespace Body

theorem reads_flag (value : Bool) : Reads flag (encodeFlag value) value := by
  intro rest
  cases value <;> rfl

theorem reads_word32 (value : UInt32) : Reads word32 (encode32 value) value := by
  have word : Reads (Varint.read .four) (encode32 value) value.toNat := fun rest =>
    Varint.read_encode .four value.toNat rest value.toNat_lt
  have read := word.map (f := UInt32.ofNat)
  rwa [UInt32.ofNat_toNat] at read

theorem reads_word16 (value : UInt16) : Reads word16 (encode16 value) value := by
  have word : Reads (Varint.read .two) (encode16 value) value.toNat := fun rest =>
    Varint.read_encode .two value.toNat rest value.toNat_lt
  have read := word.map (f := UInt16.ofNat)
  rwa [UInt16.ofNat_toNat] at read

theorem reads_tuple {bytes : List UInt8} (short : bytes.length < 2 ^ 63) :
    Reads tuple (encodeTuple bytes) bytes := by
  have count : Reads (Varint.read .eight) (Varint.encode bytes.length) bytes.length := fun rest =>
    Varint.read_encode .eight bytes.length rest (Nat.lt_trans short (by decide))
  have within : ¬ 0x8000000000000000 ≤ bytes.length := by omega
  refine count.bind ?_
  rw [if_neg within]
  exact reads_take bytes

end Body

namespace Record

/-- The bytes of the tuple that the record stores. -/
def stored : Record → List UInt8
  | .insert _ _ _ _ _ _ tuple _ => tuple
  | .update _ _ _ _ _ _ _ _ tuple _ => tuple
  | _ => []

/-- A record is read back from its encoding. -/
theorem reads_encode (record : Record) (short : record.stored.length < 2 ^ 63) :
    Reads read record.encode record := by
  cases record with
  | createIndex pagesPerRange appendOnly =>
      simp only [encode, List.append_assoc]
      exact (Body.reads_word32 0).bind ((Body.reads_word32 _).bind (Body.reads_flag _).last)
  | extendMap target appendOnly sequence logicalPage previousTail =>
      simp only [encode, List.append_assoc]
      exact (Body.reads_word32 1).bind ((Body.reads_word32 _).bind ((Body.reads_flag _).bind
        ((Body.reads_word32 _).bind ((Body.reads_word32 _).bind (Body.reads_word32 _).last))))
  | insert heapBlock pagesPerRange appendOnly mapBlock block offset tuple freshPage =>
      simp only [encode, List.append_assoc]
      exact (Body.reads_word32 2).bind ((Body.reads_word32 _).bind ((Body.reads_word32 _).bind
        ((Body.reads_flag _).bind ((Body.reads_word32 _).bind ((Body.reads_word32 _).bind
        ((Body.reads_word16 _).bind ((Body.reads_tuple short).bind (Body.reads_flag _).last)))))))
  | update heapBlock pagesPerRange appendOnly mapBlock oldBlock oldOffset newBlock newOffset tuple
      freshPage =>
      simp only [encode, List.append_assoc]
      exact (Body.reads_word32 3).bind ((Body.reads_word32 _).bind ((Body.reads_word32 _).bind
        ((Body.reads_flag _).bind ((Body.reads_word32 _).bind ((Body.reads_word32 _).bind
        ((Body.reads_word16 _).bind ((Body.reads_word32 _).bind ((Body.reads_word16 _).bind
        ((Body.reads_tuple short).bind (Body.reads_flag _).last)))))))))
  | desummarize pagesPerRange appendOnly heapBlock mapBlock block offset =>
      simp only [encode, List.append_assoc]
      exact (Body.reads_word32 4).bind ((Body.reads_word32 _).bind ((Body.reads_flag _).bind
        ((Body.reads_word32 _).bind ((Body.reads_word32 _).bind ((Body.reads_word32 _).bind
        (Body.reads_word16 _).last)))))

end Record

end Warehouse.Log
