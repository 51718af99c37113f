import Warehouse.Query.Catalog

/-! # Memos

A memo has a group for every node of a query. A group holds the expressions that give the
rows of its node, in whatever way they are computed; the inputs of an expression are
groups, which are known by their numbers. A group comes after the groups that it reads. -/

namespace Warehouse.Search

open Plan Query

/-- The number of a group: how many groups come before it. -/
abbrev GroupId := Nat

/-- An operation on the rows of groups. -/
inductive GroupExpr where
  | get (table : Table) (columns : List ColumnId)
  | select (conditions : List Condition) (input : GroupId)
  | join (keys : List JoinKey) (outer inner : GroupId)
  | aggregate (grouping : List ColumnId) (calls : List AggregateCall) (input : GroupId)
  deriving DecidableEq

namespace GroupExpr

/-- The groups that are read. -/
def inputs : GroupExpr → List GroupId
  | get .. => []
  | select _ input => [input]
  | join _ outer inner => [outer, inner]
  | aggregate _ _ input => [input]

end GroupExpr

/-- The rows of one node of a query. -/
structure Group where
  exprs : List GroupExpr
  stats : NodeStats
  /-- The tables that are read below, once for every time that they are. -/
  aliases : List String
  /-- The columns of the rows. -/
  columns : List ColumnId

/-- Groups, the last one first. -/
abbrev Memo := List Group

namespace Memo

/-- The group with a number. -/
def group? : Memo → GroupId → Option Group
  | [], _ => none
  | group :: earlier, id => if id = earlier.length then some group else group? earlier id

/-- The number of expressions in all groups. -/
def exprCount (memo : Memo) : Nat := memo.foldl (fun count group => count + group.exprs.length) 0

end Memo

/-- A memo whose last group stands for the rows that are asked for. -/
structure Goal where
  root : Group
  earlier : Memo

namespace Goal

/-- All groups. -/
def memo (goal : Goal) : Memo := goal.root :: goal.earlier

/-- The number of the last group. -/
def id (goal : Goal) : GroupId := goal.earlier.length

@[simp]
theorem group?_memo_id (goal : Goal) : goal.memo.group? goal.id = some goal.root := by
  simp [memo, id, Memo.group?]

end Goal

/-- Whether an estimate is a finite number that is not negative. -/
def isEstimate (x : Float) : Bool := x.isFinite && 0.0 ≤ x

/-- Check the estimates for a node. -/
def checkStats (stats : NodeStats) : Except Error Unit :=
  if isEstimate stats.rows && isEstimate stats.width && isEstimate stats.rebinds then .ok ()
  else
    .error (.invalidPlan (String.join ["statistics must be finite and non-negative (rows=",
      Decimal.plain.text stats.rows, " width=", Decimal.plain.text stats.width, " rebinds=",
      Decimal.plain.text stats.rebinds, ")"]))

/-- The first of some columns that is not available. -/
def missing? (used available : List ColumnId) : Option ColumnId :=
  used.find? fun column => !available.contains column

/-- Check that columns come from the input of the operation that uses them. -/
def checkColumns (used available : List ColumnId) (use : String) : Except Error Unit :=
  match missing? used available with
  | none => .ok ()
  | some column => .error (.invalidPlan s!"{use} column {column} is not produced by its input")

/-- The group that reads a table. -/
def scanGroup (table : Table) (columns : Option (List ColumnId)) (stats : NodeStats) :
    Except Error Group :=
  let columns := columns.getD table.columns
  match missing? columns table.columns with
  | some column => .error (.invalidPlan s!"column {column} is not in {table.name}")
  | none => .ok ⟨[.get table columns], stats, [table.name], columns⟩

/-- Add the groups of an expression to a memo, inputs first. -/
def insert (catalog : Catalog) : Expr → Memo → Except Error Goal
  | .get name columns stats, memo => do
      checkStats stats
      let table ← catalog.table name
      return ⟨← scanGroup table columns stats, memo⟩
  | .select conditions input stats, memo => do
      checkStats stats
      let below ← insert catalog input memo
      checkColumns (conditions.map Condition.column) below.root.columns "selection"
      return ⟨⟨[.select conditions below.id], stats, below.root.aliases, below.root.columns⟩,
        below.memo⟩
  | .join keys left right stats, memo => do
      checkStats stats
      let outer ← insert catalog left memo
      let inner ← insert catalog right outer.memo
      checkColumns (keys.map JoinKey.left) outer.root.columns "join key"
      checkColumns (keys.map JoinKey.right) inner.root.columns "join key"
      return ⟨⟨[.join keys outer.id inner.id], stats, outer.root.aliases ++ inner.root.aliases,
        outer.root.columns ++ inner.root.columns⟩, inner.memo⟩
  | .aggregate grouping calls input stats, memo => do
      checkStats stats
      let below ← insert catalog input memo
      checkColumns grouping below.root.columns "grouping"
      checkColumns (calls.filterMap AggregateCall.column) below.root.columns "aggregate"
      return ⟨⟨[.aggregate grouping calls below.id], stats, below.root.aliases, grouping⟩,
        below.memo⟩

/-- The memo of a query. -/
def Goal.ofQuery (query : Query) : Except Error Goal := do
  let catalog ← Catalog.ofTables query.tables
  insert catalog query.expr []

end Warehouse.Search
