import Warehouse.Json.Decode
import Warehouse.Plan.Table
import Warehouse.Text.Blank

/-! # Tables in documents

The statistics of columns are the members of an object, whose names are the numbers of
the columns. -/

namespace Warehouse.Plan

open Json

/-- The number that decimal digits stand for, if there are any and nothing else. -/
def decimalNumber (digits : List Char) : Option Nat :=
  if digits.isEmpty || !digits.all Char.isDigit then none
  else some (digits.foldl (fun value c => value * 10 + (c.toNat - '0'.toNat)) 0)

/-- The column that a name stands for: its number in decimal digits, with a plus sign or
without, and with any white space around it. -/
def columnOfName (name : String) : Option ColumnId := do
  let digits :=
    match Text.trim name.toList with
    | '+' :: rest => rest
    | other => other
  let column ← decimalNumber digits
  if column < UInt32.size then return column else none

/-- A number for each of some columns. -/
def ColumnMap.decode : Decoder ColumnMap := fun value => do
  let entries ← Decode.entries Decode.float value
  return .ofEntries (← entries.mapM fun (name, value) => do return (← columnOfName name, value))

/-- A list of columns. -/
def decodeColumns : Decoder (List ColumnId) := Decode.list Decode.nat32

/-- The estimates for a node. -/
def NodeStats.decode : Decoder NodeStats := fun value => do
  let [rows, width, rebinds, values, skew, risk] ← Decode.fields
    ["rows", "width", "rebinds", "column_ndvs", "histogram_skew", "risk"] value | none
  return ⟨← Decode.required Decode.float rows, ← Decode.required Decode.float width,
    ← Decode.withDefault Decode.float 1.0 rebinds, ← Decode.withDefault ColumnMap.decode [] values,
    ← Decode.withDefault Decode.float 1.0 skew, ← Decode.withDefault Decode.float 1.0 risk⟩

/-- The name of a way of storing a table. -/
def StorageKind.name : StorageKind → String
  | heap => "heap"
  | appendOnlyRow => "append_only_row"
  | appendOnlyColumn => "append_only_column"
  | foreign => "foreign"

/-- A way of storing a table. -/
def StorageKind.decode : Decoder StorageKind :=
  Decode.oneOf StorageKind.name [heap, appendOnlyRow, appendOnlyColumn, foreign]

/-- The name of a kind of index. -/
def IndexType.name : IndexType → String
  | btree => "btree"
  | bitmap => "bitmap"
  | brin => "brin"
  | hash => "hash"
  | gist => "gist"
  | gin => "gin"

/-- A kind of index. -/
def IndexType.decode : Decoder IndexType :=
  Decode.oneOf IndexType.name [btree, bitmap, brin, hash, gist, gin]

/-- A distribution: a name, or the columns that rows are hashed by. -/
def Distribution.decode : Decoder Distribution := fun value =>
  match Decode.single value with
  | some ("hashed", columns) => hashed <$> decodeColumns columns
  | _ => Decode.oneOf Distribution.text [any, singleton, replicated, random] value

/-- An index. -/
def IndexDescriptor.decode : Decoder IndexDescriptor := fun value => do
  let [name, type, keys, included, width] ← Decode.fields
    ["name", "index_type", "key_columns", "included_columns", "included_width"] value | none
  return ⟨← Decode.required Decode.text name, ← Decode.required IndexType.decode type,
    ← Decode.required decodeColumns keys, ← Decode.withDefault decodeColumns [] included,
    ← Decode.withDefault Decode.float 0.0 width⟩

/-- The statistics of a table. -/
def TableStats.decode : Decoder TableStats := fun value => do
  let [rows, width, pages, visible, values] ← Decode.fields
    ["rows", "width", "rel_pages", "rel_all_visible", "column_ndvs"] value | none
  return ⟨← Decode.required Decode.float rows, ← Decode.required Decode.float width,
    ← Decode.withDefault Decode.nat64 0 pages, ← Decode.withDefault Decode.nat64 0 visible,
    ← Decode.withDefault ColumnMap.decode [] values⟩

/-- A table. -/
def Table.decode : Decoder Table := fun value => do
  let [name, storage, distribution, partitioned, columns, stats, indexes] ← Decode.fields
    ["name", "storage", "distribution", "partitioned", "columns", "stats", "indexes"] value | none
  return ⟨← Decode.required Decode.text name, ← Decode.required StorageKind.decode storage,
    ← Decode.required Distribution.decode distribution,
    ← Decode.withDefault Decode.bool false partitioned, ← Decode.required decodeColumns columns,
    ← Decode.required TableStats.decode stats,
    ← Decode.withDefault (Decode.list IndexDescriptor.decode) [] indexes⟩

end Warehouse.Plan
