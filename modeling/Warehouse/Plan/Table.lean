import Warehouse.Plan.Distribution

/-! # Tables and indexes

What the optimizer knows about a table and its indexes. -/

namespace Warehouse.Plan

/-- How a table is stored. -/
inductive StorageKind where
  | heap
  | appendOnlyRow
  | appendOnlyColumn
  | foreign
  deriving DecidableEq, Repr

/-- Whether rows are only ever added at the end. -/
def StorageKind.isAppendOnly : StorageKind → Bool
  | .appendOnlyRow => true
  | .appendOnlyColumn => true
  | _ => false

/-- The kinds of indexes. -/
inductive IndexType where
  | btree
  | bitmap
  | brin
  | hash
  | gist
  | gin
  deriving DecidableEq, Repr

/-- An index of a table. -/
structure IndexDescriptor where
  name : String
  type : IndexType
  keyColumns : List ColumnId
  includedColumns : List ColumnId
  /-- The widths of the included columns together. -/
  includedWidth : Float
  deriving DecidableEq

/-- Whether all the columns can be had from the index alone. -/
def IndexDescriptor.covers (index : IndexDescriptor) (columns : List ColumnId) : Bool :=
  columns.all fun column =>
    index.keyColumns.contains column || index.includedColumns.contains column

/-- A table with its statistics and indexes. -/
structure Table where
  name : String
  storage : StorageKind
  distribution : Distribution
  partitioned : Bool
  columns : List ColumnId
  stats : TableStats
  indexes : List IndexDescriptor
  deriving DecidableEq

end Warehouse.Plan
