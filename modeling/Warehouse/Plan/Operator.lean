import Warehouse.Plan.Table

/-! # Operators

The operators that plans are made of. A scan is one operator whatever way it reads its
table, and of a partitioned table it has the number by which a partition selector finds
it. -/

namespace Warehouse.Plan

/-- The condition by which an index is searched. -/
structure IndexCondition where
  usedColumns : List ColumnId
  /-- How many conditions are checked on the rows found. -/
  residualPredicates : Nat

/-- The search of one index by a bitmap scan. -/
structure BitmapProbe where
  index : IndexDescriptor
  /-- The condition is an equation. -/
  equality : Bool
  /-- The condition compares with the members of a list. -/
  arrayCompare : Bool

/-- The condition of a bitmap scan. -/
structure BitmapCondition where
  /-- There is no single probe when the results of several are combined. -/
  probe : Option BitmapProbe
  usedColumns : List ColumnId
  outerRefs : List ColumnId

/-- Insert a number into an ascending list unless it is there. -/
def insertAscending (n : Nat) : List Nat → List Nat
  | [] => [n]
  | m :: rest => if n < m then n :: m :: rest else if n = m then m :: rest else m :: insertAscending n rest

/-- The members of a list in ascending order, each once. -/
def ascending (list : List Nat) : List Nat := list.foldr insertAscending []

/-- The columns of the condition that belong to the scanned table, in ascending order. -/
def BitmapCondition.localColumns (condition : BitmapCondition) : List ColumnId :=
  ascending (condition.usedColumns.filter fun column => !condition.outerRefs.contains column)

/-- The ways in which a table is read. -/
inductive Access where
  | sequential
  | foreign
  | index (index : IndexDescriptor) (condition : IndexCondition)
  | indexOnly (index : IndexDescriptor) (condition : IndexCondition)
  | bitmap (condition : BitmapCondition)

/-- The part of an aggregation that an operator does. -/
inductive AggStage where
  | global
  | intermediate
  | onSegment
  deriving DecidableEq, Repr

/-- How groups are formed. -/
inductive Grouping where
  /-- In a hash table. -/
  | hash
  /-- From sorted input. -/
  | stream
  deriving DecidableEq, Repr

/-- Which rows a hash join gives. -/
inductive HashJoinKind where
  | inner
  | leftSemi
  | leftAntiSemi
  | leftAntiSemiNotIn
  | leftOuter
  | rightOuter
  deriving DecidableEq, Repr

/-- Which rows an index nested loop join gives. -/
inductive IndexJoinKind where
  | inner
  | leftOuter
  deriving DecidableEq, Repr

/-- Which rows a nested loop join gives. -/
inductive LoopJoinKind where
  | inner
  | leftSemi
  | leftAntiSemi
  | leftAntiSemiNotIn
  | leftOuter
  | correlatedInner
  | correlatedLeftOuter
  | correlatedLeftSemi
  | correlatedInLeftSemi
  | correlatedLeftAntiSemi
  | correlatedNotInLeftAntiSemi
  deriving DecidableEq, Repr

/-- How rows are sent between segments. -/
inductive Motion where
  | gather
  | broadcast (ignoresThreshold : Bool)
  /-- By the hash of columns; nothing moves when the rows lie that way already. -/
  | redistribute (columns : List ColumnId) (noOp : Bool)
  | random
  | routed
  deriving DecidableEq, Repr

/-- The operators that have a cost. -/
inductive Operator where
  /-- Read a table, or the partitions of one that a selector with the number picks. The search
  takes the number of a group, which fits into 32 bits if there are at most 2^32 groups. -/
  | scan (table : Table) (scanId : Option Nat) (access : Access)
  | filter (columns : List ColumnId)
  | computeScalar (callsFunction : Bool)
  | assertion
  | limit
  | partitionSelector (scanId : Nat)
  | split
  | spool
  | sequenceProject (sortColumns : Nat)
  | cteProducer (id : Nat)
  | cteConsumer (id : Nat)
  | constTable
  | tableFunction
  | modify
  | aggregate (grouping : Grouping) (deduplicates : Bool) (columns : List ColumnId)
      (stage : AggStage) (generatesDuplicates : Bool)
  | scalarAgg (columns functions : Nat)
  | sequence
  | serialUnion
  | parallelUnion
  | sort (columns : List ColumnId)
  | hashJoin (kind : HashJoinKind) (columns : List ColumnId)
  | mergeJoin (columns : List ColumnId)
  | indexJoin (kind : IndexJoinKind) (columns : List ColumnId)
  | loopJoin (kind : LoopJoinKind) (columns : List ColumnId)
  | motion (motion : Motion)

/-- How many children an operator takes. -/
inductive Arity where
  | exactly (count : Nat)
  | atLeast (count : Nat)
  deriving DecidableEq, Repr

/-- Whether that many children are taken. -/
def Arity.accepts : Arity → Nat → Bool
  | exactly count, given => given == count
  | atLeast count, given => count ≤ given

/-- The name of a way of reading a table. -/
def Access.name : Access → String
  | sequential => "TableScan"
  | foreign => "ForeignScan"
  | index .. => "IndexScan"
  | indexOnly .. => "IndexOnlyScan"
  | bitmap .. => "BitmapTableScan"

/-- All stages of an aggregation. -/
def AggStage.all : List AggStage := [global, intermediate, onSegment]

/-- All kinds of hash joins. -/
def HashJoinKind.all : List HashJoinKind :=
  [inner, leftSemi, leftAntiSemi, leftAntiSemiNotIn, leftOuter, rightOuter]

/-- All kinds of index nested loop joins. -/
def IndexJoinKind.all : List IndexJoinKind := [inner, leftOuter]

/-- All kinds of nested loop joins. -/
def LoopJoinKind.all : List LoopJoinKind :=
  [inner, leftSemi, leftAntiSemi, leftAntiSemiNotIn, leftOuter, correlatedInner,
    correlatedLeftOuter, correlatedLeftSemi, correlatedInLeftSemi, correlatedLeftAntiSemi,
    correlatedNotInLeftAntiSemi]

/-- The name of the stage of an aggregation. -/
def AggStage.name : AggStage → String
  | global => "Global"
  | intermediate => "Intermediate"
  | onSegment => "Local"

/-- The name of a kind of hash join. -/
def HashJoinKind.name : HashJoinKind → String
  | inner => "Inner"
  | leftSemi => "LeftSemi"
  | leftAntiSemi => "LeftAntiSemi"
  | leftAntiSemiNotIn => "LeftAntiSemiNotIn"
  | leftOuter => "LeftOuter"
  | rightOuter => "RightOuter"

/-- The name of a kind of index nested loop join. -/
def IndexJoinKind.name : IndexJoinKind → String
  | inner => "Inner"
  | leftOuter => "LeftOuter"

/-- The name of a kind of nested loop join. -/
def LoopJoinKind.name : LoopJoinKind → String
  | inner => "Inner"
  | leftSemi => "LeftSemi"
  | leftAntiSemi => "LeftAntiSemi"
  | leftAntiSemiNotIn => "LeftAntiSemiNotIn"
  | leftOuter => "LeftOuter"
  | correlatedInner => "CorrelatedInner"
  | correlatedLeftOuter => "CorrelatedLeftOuter"
  | correlatedLeftSemi => "CorrelatedLeftSemi"
  | correlatedInLeftSemi => "CorrelatedInLeftSemi"
  | correlatedLeftAntiSemi => "CorrelatedLeftAntiSemi"
  | correlatedNotInLeftAntiSemi => "CorrelatedNotInLeftAntiSemi"

/-- The name of a motion. -/
def Motion.name : Motion → String
  | gather => "GatherMotion"
  | broadcast _ => "BroadcastMotion"
  | redistribute .. => "RedistributeMotion"
  | random => "RandomMotion"
  | routed => "RoutedDistributeMotion"

namespace Operator

/-- The name of an operator. -/
def name : Operator → String
  | scan _ none access => access.name
  | scan _ (some _) access => "Dynamic" ++ access.name
  | filter _ => "Filter"
  | computeScalar _ => "ComputeScalar"
  | assertion => "Assert"
  | limit => "Limit"
  | partitionSelector _ => "PartitionSelector"
  | split => "Split"
  | spool => "Spool"
  | sequenceProject _ => "SequenceProject"
  | cteProducer _ => "CteProducer"
  | cteConsumer _ => "CteConsumer"
  | constTable => "ConstTableGet"
  | tableFunction => "Tvf"
  | modify => "Dml"
  | aggregate grouping deduplicates .. =>
      (match grouping with
        | .hash => "HashAgg"
        | .stream => "StreamAgg") ++ (if deduplicates then "Deduplicate" else "")
  | scalarAgg .. => "ScalarAgg"
  | sequence => "Sequence"
  | serialUnion => "SerialUnionAll"
  | parallelUnion => "ParallelUnionAll"
  | sort _ => "Sort"
  | hashJoin .. => "HashJoin"
  | mergeJoin _ => "FullMergeJoin"
  | indexJoin .. => "IndexNLJoin"
  | loopJoin .. => "NLJoin"
  | motion kind => kind.name

/-- How many children the operator takes. -/
def arity : Operator → Arity
  | scan .. => .exactly 0
  | cteConsumer _ => .exactly 0
  | constTable => .exactly 0
  | tableFunction => .exactly 0
  | sequence => .atLeast 1
  | serialUnion => .atLeast 1
  | parallelUnion => .atLeast 1
  | hashJoin .. => .exactly 2
  | mergeJoin _ => .exactly 2
  | indexJoin .. => .exactly 2
  | loopJoin .. => .exactly 2
  | partitionSelector _ => .atLeast 0
  | _ => .exactly 1

/-- The table that the operator reads. -/
def table? : Operator → Option Table
  | scan table .. => some table
  | _ => none

/-- Whether the operator reads a table. -/
def isScan (operator : Operator) : Bool := operator.table?.isSome

/-- The number by which a partition selector finds the scan. -/
def dynamicScanId : Operator → Option Nat
  | scan _ scanId _ => scanId
  | _ => none

/-- Whether the operator is a hash join. -/
def isHashJoin : Operator → Bool
  | hashJoin .. => true
  | _ => false

/-- Whether the operator is a nested loop join, with an index or without. -/
def isLoopJoin : Operator → Bool
  | loopJoin .. => true
  | indexJoin .. => true
  | _ => false

/-- Whether the operator sends rows between segments. -/
def isMotion : Operator → Bool
  | motion _ => true
  | _ => false

/-- What follows the name in the explanation of a plan. -/
def detail : Operator → String
  | scan table _ (.index index _) => s!" {table.name} using {index.name}"
  | scan table _ (.indexOnly index _) => s!" {table.name} using {index.name}"
  | scan table .. => s!" {table.name}"
  | hashJoin kind _ => s!" ({kind.name})"
  | indexJoin kind _ => s!" ({kind.name})"
  | loopJoin kind _ => s!" ({kind.name})"
  | aggregate _ false _ stage _ => s!" ({stage.name})"
  | motion (.redistribute columns _) => " " ++ Distribution.columnsText columns
  | _ => ""

end Operator

end Warehouse.Plan
