import Warehouse.Plan.Table

/-! # Queries

A query names the tables that it reads and says in a tree what is to be computed from
them. The tree does not say how: every node stands for a set of rows, of which it gives
estimates. -/

namespace Warehouse.Query

open Plan

/-- How a column is compared with a constant. -/
inductive Comparison where
  | eq
  | ne
  | lt
  | le
  | gt
  | ge
  /-- With the members of a list. -/
  | within
  deriving DecidableEq, Repr

namespace Comparison

/-- All comparisons. -/
def all : List Comparison := [eq, ne, lt, le, gt, ge, within]

/-- The name of a comparison. -/
def name : Comparison → String
  | eq => "Eq"
  | ne => "Ne"
  | lt => "Lt"
  | le => "Le"
  | gt => "Gt"
  | ge => "Ge"
  | within => "In"

/-- Whether an index on the column can be searched for the comparison. -/
def isIndexable (comparison : Comparison) : Bool := comparison ≠ ne

end Comparison

/-- A comparison of a column with a constant. A selection keeps the rows for which all of
its conditions hold. -/
structure Condition where
  column : ColumnId
  comparison : Comparison
  deriving DecidableEq, Repr

/-- Two columns that are equal in the rows that a join puts together. -/
structure JoinKey where
  left : ColumnId
  right : ColumnId
  deriving DecidableEq, Repr

/-- The same key with the sides of the join exchanged. -/
def JoinKey.swap (key : JoinKey) : JoinKey := ⟨key.right, key.left⟩

@[simp]
theorem JoinKey.swap_swap (key : JoinKey) : key.swap.swap = key := rfl

/-- A value that is computed for every group of rows, from a column or from the rows as
such. -/
structure AggregateCall where
  function : String
  column : Option ColumnId
  deriving DecidableEq, Repr

/-- What is to be computed. -/
inductive Expr where
  /-- The rows of a table; all its columns when none are named. -/
  | get (table : String) (columns : Option (List ColumnId)) (stats : NodeStats)
  | select (conditions : List Condition) (input : Expr) (stats : NodeStats)
  | join (keys : List JoinKey) (left right : Expr) (stats : NodeStats)
  /-- One row for each group of rows that agree in some columns. -/
  | aggregate (grouping : List ColumnId) (calls : List AggregateCall) (input : Expr)
      (stats : NodeStats)

namespace Expr

/-- The estimates for the rows. -/
def stats : Expr → NodeStats
  | get _ _ stats => stats
  | select _ _ stats => stats
  | join _ _ _ stats => stats
  | aggregate _ _ _ stats => stats

/-- The number of nodes. -/
def size : Expr → Nat
  | get .. => 1
  | select _ input _ => input.size + 1
  | join _ left right _ => left.size + right.size + 1
  | aggregate _ _ input _ => input.size + 1

/-- The number of joins. -/
def joins : Expr → Nat
  | get .. => 0
  | select _ input _ => input.joins
  | join _ left right _ => left.joins + right.joins + 1
  | aggregate _ _ input _ => input.joins

end Expr

end Query

/-- A query: the tables that it may read, and what is to be computed. -/
structure Query where
  tables : List Plan.Table
  expr : Query.Expr

end Warehouse
