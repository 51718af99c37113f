/-! # Statistics

What is known or estimated about the rows of a table and of the nodes of a plan. -/

namespace Warehouse.Plan

/-- The number of a column. -/
abbrev ColumnId := Nat

/-- A number for each of some columns. The first entry of a column counts. -/
abbrev ColumnMap := List (ColumnId × Float)

namespace ColumnMap

/-- Give a column a number. -/
def insert (map : ColumnMap) (column : ColumnId) (value : Float) : ColumnMap :=
  (column, value) :: map

/-- The map of a list of entries. Of several entries for a column the last counts. -/
def ofEntries (entries : List (ColumnId × Float)) : ColumnMap := entries.reverse

/-- The number of a column. -/
def get? (map : ColumnMap) (column : ColumnId) : Option Float := map.lookup column

@[simp]
theorem get?_insert (map : ColumnMap) (column other : ColumnId) (value : Float) :
    (map.insert column value).get? other = if other == column then some value else map.get? other := by
  rw [get?, insert, List.lookup_cons]
  cases same : other == column with
  | true => rfl
  | false => rfl

end ColumnMap

/-- Estimates for the rows that a node of a plan gives. -/
structure NodeStats where
  rows : Float
  width : Float
  /-- How often the node is run. -/
  rebinds : Float
  /-- The number of distinct values in each column. -/
  distinctValues : ColumnMap
  /-- Skew of the histogram over the columns that distribute the rows; one is none. -/
  histogramSkew : Float
  /-- Risk of the estimate; one is an exact one. -/
  risk : Float

namespace NodeStats

/-- Estimates of rows and width with nothing else known. -/
def of (rows width : Float) : NodeStats := ⟨rows, width, 1.0, [], 1.0, 1.0⟩

end NodeStats

/-- Statistics of a table. -/
structure TableStats where
  rows : Float
  width : Float
  pages : Nat
  /-- Pages whose rows are visible to everybody. -/
  visiblePages : Nat
  /-- The number of distinct values in each column. -/
  distinctValues : ColumnMap
  deriving DecidableEq

end Warehouse.Plan
