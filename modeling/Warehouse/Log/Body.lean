import Warehouse.Log.Record
import Warehouse.Log.Varint

/-! # Records as bytes

The body of a frame is the number of the kind of record followed by its fields in
order. Numbers have variable length, a truth value is one byte, and the bytes of a
tuple follow their count. -/

namespace Warehouse.Log

namespace Body

/-- A truth value is zero or one. -/
def encodeFlag (flag : Bool) : List UInt8 := [if flag then 1 else 0]

/-- A block number, or another word of four bytes. -/
def encode32 (value : UInt32) : List UInt8 := Varint.encode value.toNat

/-- An offset number. -/
def encode16 (value : UInt16) : List UInt8 := Varint.encode value.toNat

/-- The bytes of a tuple after their count. -/
def encodeTuple (tuple : List UInt8) : List UInt8 := Varint.encode tuple.length ++ tuple

/-- Read a truth value. -/
def flag : Reader Bool := do
  let value ← Reader.word 1
  if value = 0 then return false
  else if value = 1 then return true
  else Reader.refuse "invalid truth value"

/-- Read a word of four bytes. -/
def word32 : Reader UInt32 := UInt32.ofNat <$> Varint.read .four

/-- Read an offset number. -/
def word16 : Reader UInt16 := UInt16.ofNat <$> Varint.read .two

/-- Read the bytes of a tuple. A count that no address space holds is a fault and
not merely more than what is left. -/
def tuple : Reader (List UInt8) := do
  let count ← Varint.read .eight
  if 0x8000000000000000 ≤ count then throw (Failure.fault .overflow)
  Reader.take count

end Body

namespace Record

open Body

/-- The body of the record's frame. -/
def encode : Record → List UInt8
  | .createIndex pagesPerRange appendOnly =>
      encode32 0 ++ encode32 pagesPerRange ++ encodeFlag appendOnly
  | .extendMap target appendOnly sequence logicalPage previousTail =>
      encode32 1 ++ encode32 target ++ encodeFlag appendOnly ++ encode32 sequence ++
        encode32 logicalPage ++ encode32 previousTail
  | .insert heapBlock pagesPerRange appendOnly mapBlock block offset tuple freshPage =>
      encode32 2 ++ encode32 heapBlock ++ encode32 pagesPerRange ++ encodeFlag appendOnly ++
        encode32 mapBlock ++ encode32 block ++ encode16 offset ++ encodeTuple tuple ++
        encodeFlag freshPage
  | .update heapBlock pagesPerRange appendOnly mapBlock oldBlock oldOffset newBlock newOffset tuple
      freshPage =>
      encode32 3 ++ encode32 heapBlock ++ encode32 pagesPerRange ++ encodeFlag appendOnly ++
        encode32 mapBlock ++ encode32 oldBlock ++ encode16 oldOffset ++ encode32 newBlock ++
        encode16 newOffset ++ encodeTuple tuple ++ encodeFlag freshPage
  | .desummarize pagesPerRange appendOnly heapBlock mapBlock block offset =>
      encode32 4 ++ encode32 pagesPerRange ++ encodeFlag appendOnly ++ encode32 heapBlock ++
        encode32 mapBlock ++ encode32 block ++ encode16 offset

/-- Read a record. -/
def read : Reader Record := do
  match (← word32).toNat with
  | 0 => return .createIndex (← word32) (← flag)
  | 1 => return .extendMap (← word32) (← flag) (← word32) (← word32) (← word32)
  | 2 =>
      return .insert (← word32) (← word32) (← flag) (← word32) (← word32) (← word16) (← tuple)
        (← flag)
  | 3 =>
      return .update (← word32) (← word32) (← flag) (← word32) (← word32) (← word16) (← word32)
        (← word16) (← tuple) (← flag)
  | 4 =>
      return .desummarize (← word32) (← flag) (← word32) (← word32) (← word32) (← word16)
  | _ => Reader.refuse "unknown kind of record"

end Record

end Warehouse.Log
