import Warehouse.Plan.Statistics

/-! # Distributions

How the rows of a table or of an intermediate result lie on the segments of the
cluster. -/

namespace Warehouse.Plan

/-- Where the rows are. -/
inductive Distribution where
  /-- Anywhere; only a requirement is like that. -/
  | any
  /-- On one segment. -/
  | singleton
  /-- All of them on every segment. -/
  | replicated
  /-- On the segment that the values of some columns determine. -/
  | hashed (columns : List ColumnId)
  /-- On some segment each. -/
  | random
  deriving DecidableEq, Repr

namespace Distribution

/-- The text of a list of columns. -/
def columnsText (columns : List ColumnId) : String :=
  "[" ++ ", ".intercalate (columns.map toString) ++ "]"

/-- The text of a distribution. -/
def text : Distribution → String
  | any => "any"
  | singleton => "singleton"
  | replicated => "replicated"
  | hashed columns => "hashed" ++ columnsText columns
  | random => "random"

/-- Whether rows that lie like `given` meet the requirement `required`. Columns are
compared regardless of their order. -/
def satisfies (given required : Distribution) : Bool :=
  match required, given with
  | any, _ => true
  | singleton, singleton => true
  | replicated, replicated => true
  | hashed wanted, hashed present =>
      wanted.length == present.length && wanted.all fun column => present.contains column
  | random, random => true
  | _, _ => false

end Distribution

end Warehouse.Plan
