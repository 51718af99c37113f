import Warehouse.Json.Decode
import Warehouse.Log.Record

/-! # Records in documents

A record is an object with one member, whose name says the kind and whose value has the
fields. How the bytes of a tuple are written is left to the caller. -/

namespace Warehouse.Log.Record

open Json

/-- A block number, or another word of four bytes. -/
def field32 (fields : Value) (name : String) : Option UInt32 := do
  UInt32.ofNat <$> Decode.nat32 (← fields.member? name)

/-- An offset number. -/
def field16 (fields : Value) (name : String) : Option UInt16 := do
  UInt16.ofNat <$> Decode.natBelow UInt16.size (← fields.member? name)

/-- A truth value. -/
def fieldFlag (fields : Value) (name : String) : Option Bool := do
  Decode.bool (← fields.member? name)

/-- A record of a kind from its fields. -/
def decodeFields (bytes : Decoder (List UInt8)) (kind : String) : Decoder Record := fun fields => do
  let appendOnly ← fieldFlag fields "is_ao"
  match kind with
  | "CreateIndex" => return .createIndex (← field32 fields "pages_per_range") appendOnly
  | "RevmapExtend" =>
      return .extendMap (← field32 fields "target_blk") appendOnly (← field32 fields "block_seq")
        (← field32 fields "logical_page_num") (← field32 fields "prev_tail")
  | "Insert" =>
      return .insert (← field32 fields "heap_blk") (← field32 fields "pages_per_range") appendOnly
        (← field32 fields "revmap_blk") (← field32 fields "reg_blk") (← field16 fields "offset")
        (← bytes (← fields.member? "tuple")) (← fieldFlag fields "init_page")
  | "Update" =>
      return .update (← field32 fields "heap_blk") (← field32 fields "pages_per_range") appendOnly
        (← field32 fields "revmap_blk") (← field32 fields "old_blk") (← field16 fields "old_offset")
        (← field32 fields "new_blk") (← field16 fields "new_offset")
        (← bytes (← fields.member? "tuple")) (← fieldFlag fields "init_page")
  | "Desummarize" =>
      return .desummarize (← field32 fields "pages_per_range") appendOnly
        (← field32 fields "heap_blk") (← field32 fields "revmap_blk") (← field32 fields "reg_blk")
        (← field16 fields "reg_offset")
  | _ => none

/-- A record. -/
def decode (bytes : Decoder (List UInt8)) : Decoder Record := fun value => do
  let (kind, fields) ← Decode.single value
  decodeFields bytes kind fields

/-- The member that stands for a record. -/
def toMember (bytes : List UInt8 → Value) : Record → String × List (String × Value)
  | .createIndex pagesPerRange appendOnly =>
      ("CreateIndex", [("pages_per_range", .whole pagesPerRange.toNat), ("is_ao", .bool appendOnly)])
  | .extendMap target appendOnly sequence logicalPage previousTail =>
      ("RevmapExtend", [("target_blk", .whole target.toNat), ("is_ao", .bool appendOnly),
        ("block_seq", .whole sequence.toNat), ("logical_page_num", .whole logicalPage.toNat),
        ("prev_tail", .whole previousTail.toNat)])
  | .insert heapBlock pagesPerRange appendOnly mapBlock block offset tuple freshPage =>
      ("Insert", [("heap_blk", .whole heapBlock.toNat),
        ("pages_per_range", .whole pagesPerRange.toNat), ("is_ao", .bool appendOnly),
        ("revmap_blk", .whole mapBlock.toNat), ("reg_blk", .whole block.toNat),
        ("offset", .whole offset.toNat), ("tuple", bytes tuple), ("init_page", .bool freshPage)])
  | .update heapBlock pagesPerRange appendOnly mapBlock oldBlock oldOffset newBlock newOffset tuple
      freshPage =>
      ("Update", [("heap_blk", .whole heapBlock.toNat),
        ("pages_per_range", .whole pagesPerRange.toNat), ("is_ao", .bool appendOnly),
        ("revmap_blk", .whole mapBlock.toNat), ("old_blk", .whole oldBlock.toNat),
        ("old_offset", .whole oldOffset.toNat), ("new_blk", .whole newBlock.toNat),
        ("new_offset", .whole newOffset.toNat), ("tuple", bytes tuple),
        ("init_page", .bool freshPage)])
  | .desummarize pagesPerRange appendOnly heapBlock mapBlock block offset =>
      ("Desummarize", [("pages_per_range", .whole pagesPerRange.toNat), ("is_ao", .bool appendOnly),
        ("heap_blk", .whole heapBlock.toNat), ("revmap_blk", .whole mapBlock.toNat),
        ("reg_blk", .whole block.toNat), ("reg_offset", .whole offset.toNat)])

end Warehouse.Log.Record
