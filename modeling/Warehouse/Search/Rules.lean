import Warehouse.Search.Alternative

/-! # Rules

`Rule.equivalents` are the expressions that a rule finds for the rows of another one, and
`Rule.alternatives` the ways to compute them. Rules for indexes look at a selection
together with the table that it reads from. -/

namespace Warehouse.Search

open Plan Query

/-- A selection from a table. -/
structure TableSelection where
  conditions : List Condition
  table : Table
  /-- The columns that are read. -/
  columns : List ColumnId

namespace TableSelection

/-- The reading of a table among some expressions. -/
def scanned? : List GroupExpr → Option (Table × List ColumnId)
  | [] => none
  | .get table columns :: _ => some (table, columns)
  | _ :: rest => scanned? rest

/-- The selection that an expression stands for, if it selects from a table. -/
def ofExpr? (memo : Memo) : GroupExpr → Option TableSelection
  | .select conditions input => do
      let group ← memo.group? input
      let (table, columns) ← scanned? group.exprs
      return ⟨conditions, table, columns⟩
  | _ => none

/-- Whether an index on a column can be searched for one of the conditions. -/
def probes (selection : TableSelection) (column : ColumnId) : Bool :=
  selection.conditions.any fun condition =>
    condition.column == column && condition.comparison.isIndexable

/-- The condition by which an index is searched, unless none of its key columns is
compared in a way that the index can answer. All conditions on other columns are checked on
the rows found. -/
def indexCondition (selection : TableSelection) (index : IndexDescriptor) : Option IndexCondition :=
  let used := index.keyColumns.filter selection.probes
  if used.isEmpty then none
  else
    some ⟨used, (selection.conditions.filter fun condition =>
      !used.contains condition.column).length⟩

/-- The columns that an index must have so that the table need not be read. -/
def neededColumns (selection : TableSelection) : List ColumnId :=
  selection.columns ++ selection.conditions.map Condition.column

/-- The condition of a bitmap scan with an index. -/
def bitmapCondition (selection : TableSelection) (index : IndexDescriptor) :
    Option BitmapCondition := do
  let used := (← selection.indexCondition index).usedColumns
  let probed := selection.conditions.filter fun condition => used.contains condition.column
  return ⟨some ⟨index, probed.all fun condition => condition.comparison == .eq,
    probed.any fun condition => condition.comparison == .within⟩, used, []⟩

end TableSelection

/-- The alternative that reads a table. A partitioned table is read in parts that are
selected while the plan runs. -/
def scanAlternative (rule : Rule) (id : GroupId) (table : Table) (access : Access) : Alternative :=
  ⟨rule, .scan table (if table.partitioned then some id else none) access, [],
    .fixed table.distribution⟩

/-- The alternatives that a selection from a table has by an index. -/
def indexAlternatives (rule : Rule) (id : GroupId) (memo : Memo) (expr : GroupExpr)
    (access : TableSelection → IndexDescriptor → Option Access) : List Alternative :=
  match TableSelection.ofExpr? memo expr with
  | none => []
  | some selection =>
      selection.table.indexes.filterMap fun index =>
        (access selection index).map (scanAlternative rule id selection.table)

/-- Searching an index for rows of the table. -/
def indexAccess (selection : TableSelection) (index : IndexDescriptor) : Option Access :=
  if index.type = .btree ∨ index.type = .hash then
    (selection.indexCondition index).map (.index index)
  else none

/-- Searching an index that has all columns that are needed. -/
def indexOnlyAccess (selection : TableSelection) (index : IndexDescriptor) : Option Access :=
  if index.type = .btree ∧ index.covers selection.neededColumns then
    (selection.indexCondition index).map (.indexOnly index)
  else none

/-- Searching an index for pages of the table. -/
def bitmapAccess (selection : TableSelection) (index : IndexDescriptor) : Option Access :=
  if index.type ≠ .hash then (selection.bitmapCondition index).map .bitmap else none

/-- The alternatives for a selection: its rows are filtered where they lie, or where they
are demanded. -/
def filterAlternatives (conditions : List Condition) (input : GroupId) : List Alternative :=
  [Request.anywhere input, ⟨input, .inherit⟩].map fun request =>
    ⟨.filter, .filter (conditions.map Condition.column), [request], .ofInput 0⟩

/-- The columns of the keys of a join, those of the left side first. -/
def keyColumns (keys : List JoinKey) : List ColumnId :=
  keys.map JoinKey.left ++ keys.map JoinKey.right

/-- The inputs of a join whose inner side is copied to every segment. -/
def broadcastInputs (outer inner : GroupId) : List Request :=
  [.anywhere outer, .distributed inner .replicated]

/-- The alternatives for a join with a hash table: both sides lie by their keys, or the
inner side is copied. -/
def hashJoinAlternatives (keys : List JoinKey) (outer inner : GroupId) : List Alternative :=
  if keys.isEmpty then []
  else
    let op := Operator.hashJoin .inner (keyColumns keys)
    let left := Distribution.hashed (keys.map JoinKey.left)
    let right := Distribution.hashed (keys.map JoinKey.right)
    [⟨.hashJoin, op, [.distributed outer left, .distributed inner right], .fixed left⟩,
      ⟨.hashJoin, op, broadcastInputs outer inner, .ofInput 0⟩]

/-- The alternatives for a join without a hash table. -/
def loopJoinAlternatives (keys : List JoinKey) (outer inner : GroupId) : List Alternative :=
  [⟨.loopJoin, .loopJoin .inner (keyColumns keys), broadcastInputs outer inner, .ofInput 0⟩]

/-- The operator that makes one row of all. -/
def scalarAgg (calls : List AggregateCall) : Operator :=
  .scalarAgg (max (ascending (calls.filterMap AggregateCall.column)).length 1) (max calls.length 1)

/-- The alternatives for an aggregation in a hash table. -/
def hashAggAlternatives (grouping : List ColumnId) (calls : List AggregateCall) (input : GroupId) :
    List Alternative :=
  if grouping.isEmpty then
    [⟨.hashAgg, scalarAgg calls, [.distributed input .singleton], .fixed .singleton⟩]
  else
    [⟨.hashAgg, .aggregate .hash false grouping .global false,
      [.distributed input (.hashed grouping)], .fixed (.hashed grouping)⟩]

/-- The alternatives for an aggregation of sorted rows. -/
def streamAggAlternatives (grouping : List ColumnId) (input : GroupId) : List Alternative :=
  if grouping.isEmpty then []
  else
    [⟨.streamAgg, .aggregate .stream false grouping .global false,
      [⟨input, .exact ⟨.hashed grouping, grouping⟩⟩], .fixed (.hashed grouping)⟩]

namespace Rule

/-- The expressions that the rule finds for the rows of an expression. -/
def equivalents : Rule → GroupExpr → List GroupExpr
  | exchange, .join keys outer inner => [.join (keys.map JoinKey.swap) inner outer]
  | _, _ => []

/-- The ways that the rule finds to compute the rows of an expression of a group. -/
def alternatives (memo : Memo) (id : GroupId) : Rule → GroupExpr → List Alternative
  | tableScan, .get table _ =>
      [scanAlternative tableScan id table
        (if table.storage = .foreign then .foreign else .sequential)]
  | indexScan, expr => indexAlternatives indexScan id memo expr indexAccess
  | indexOnlyScan, expr => indexAlternatives indexOnlyScan id memo expr indexOnlyAccess
  | bitmapScan, expr => indexAlternatives bitmapScan id memo expr bitmapAccess
  | filter, .select conditions input => filterAlternatives conditions input
  | hashJoin, .join keys outer inner => hashJoinAlternatives keys outer inner
  | loopJoin, .join keys outer inner => loopJoinAlternatives keys outer inner
  | hashAgg, .aggregate grouping calls input => hashAggAlternatives grouping calls input
  | streamAgg, .aggregate grouping _ input => streamAggAlternatives grouping input
  | _, _ => []

end Rule

namespace Group

/-- Add an expression unless it is there. -/
def add (group : Group) (expr : GroupExpr) : Group :=
  if expr ∈ group.exprs then group else { group with exprs := group.exprs ++ [expr] }

/-- Add the expressions that the rules find. A rule that exchanges sides gives back the
expression that it was applied to, so that one round finds all. -/
def explore (rules : List Rule) (group : Group) : Group :=
  (group.exprs.flatMap fun expr => rules.flatMap fun rule => rule.equivalents expr).foldl add group

/-- The ways that the rules find to compute the rows of a group: for each expression, all
of each rule. -/
def alternatives (rules : List Rule) (memo : Memo) (id : GroupId) (group : Group) :
    List Alternative :=
  group.exprs.flatMap fun expr => rules.flatMap fun rule => rule.alternatives memo id expr

end Group

end Warehouse.Search
