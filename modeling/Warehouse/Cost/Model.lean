import Warehouse.Cost.Param
import Warehouse.Cost.Skew
import Warehouse.Plan.Arena

/-! # The cost model

The cost of a node follows from its statistics, the costs of its children, and the
prices of units of work. Most operators cost what they do themselves plus what their
children cost; the formulas below give the first part. -/

namespace Warehouse.Cost

open Plan

/-- A cost model for a cluster. -/
structure Model where
  params : Params
  /-- The number of segments. -/
  segments : UInt32
  /-- The skew factor of the user; zero stands for none. -/
  skewFactor : UInt32
  /-- Broadcasting more rows is penalised; zero stands for no limit. -/
  broadcastThreshold : UInt64
  /-- Use the formulas for bitmap scans from before the calibration. -/
  legacy : Bool
  /-- Hash joins over skewed redistributed inputs cost more. -/
  penalizesSkew : Bool
  /-- Hash joins over redistributed inputs are not to be chosen. -/
  discardsRedistribution : Bool

namespace Model

/-- How many rows may be broadcast unless the user says otherwise. -/
def defaultBroadcastThreshold : UInt64 := 100000

/-- A model with default settings. There has to be a segment, and all parameters have to
be acceptable. -/
def new (params : Params) (segments : UInt32) : Except Error Model := do
  if segments = 0 then throw (.invalidParameter "segments" 0.0)
  params.validate
  return ⟨params, segments, 0, defaultBroadcastThreshold, false, true, false⟩

/-- The price that a parameter says. -/
def price (model : Model) (param : Param) : Float := model.params.get param

/-- What bounds the skew ratio of hash joins. -/
def skewPolicy (model : Model) : SkewPolicy :=
  ⟨model.segments, model.skewFactor, model.price .penalizeHjSkewUpperLimit⟩

end Model

/-- A child of the node whose cost is asked for. -/
structure CostedChild where
  op : Operator
  stats : NodeStats
  cost : Amount

/-- What the cost of a node depends on. -/
structure Costing where
  stats : NodeStats
  children : List CostedChild

namespace Costing

/-- The child at a position. -/
def child (costing : Costing) (position : Nat) : Except Error CostedChild :=
  match costing.children[position]? with
  | some child => .ok child
  | none => .error (.invalidPlan s!"missing child {position}")

/-- The costed children of a node, by their numbers. -/
def childrenOf (arena : Arena) (id : Nat) : List Nat → Except Error (List CostedChild)
  | [] => .ok []
  | number :: rest => do
      let node ← arena.node number
      match node.cost with
      | none =>
          throw (.invalidPlan s!"child {nodeText number} of {nodeText id} is not costed")
      | some cost => return ⟨node.op, node.stats, cost⟩ :: (← childrenOf arena id rest)

/-- What the cost of a node of an arena depends on. All its children need a cost. -/
def ofNode (arena : Arena) (id : Nat) : Except Error Costing := do
  let node ← arena.node id
  return ⟨node.stats, ← childrenOf arena id node.children⟩

end Costing

/-- The number of different columns in a list. -/
def distinctCount (columns : List ColumnId) : Float := columns.eraseDups.length.toFloat

namespace Model

/-- What a broadcast of too many rows costs. -/
def broadcastPenalty : Float := 1e14

/-- What a hash join costs that is not to be chosen. It stays finite in sums. -/
def discardedCost : Float := 1e300

/-- Making or passing on rows. -/
def rowWork (model : Model) (rows width : Float) : Float :=
  rows * width * model.price .tupDefaultProcCostUnit

/-- Giving rows to the operator above a scan. -/
def scanOutput (model : Model) (rows width rebinds : Float) : Float :=
  rebinds * rows * width * model.price .outputTupCostUnit

/-- Passing on the rows that an operator gives. -/
def passing (model : Model) (stats : NodeStats) : Float :=
  stats.rebinds * model.rowWork stats.rows stats.width

/-! ## Scans -/

/-- Reading a table from its beginning to its end. -/
def tableScan (model : Model) (table : Table) (stats : NodeStats) : Float :=
  stats.rebinds *
    (model.price .initScanFactor + stats.rows * table.stats.width * model.price .tableScanCostUnit)

/-- The weight of unused key columns in the cost of a scan. -/
def unusedKeys (model : Model) (table : Table) (index : IndexDescriptor)
    (condition : IndexCondition) : Float :=
  unusedIndexWeight index.keyColumns condition.usedColumns table.stats *
    model.price .indexCostConversionFactor

/-- Finding rows by an index and reading them from the table. -/
def indexScan (model : Model) (table : Table) (index : IndexDescriptor)
    (condition : IndexCondition) (stats : NodeStats) : Float :=
  let perRow := index.keyColumns.length.toFloat * model.price .indexFilterCostUnit +
    table.stats.width * model.price .indexScanTupCostUnit +
    index.includedWidth * model.price .indexOnlyScanTupCostUnit
  let residual := condition.residualPredicates.toFloat * model.price .indexCostConversionFactor
  stats.rebinds *
    (stats.rows * perRow + model.price .indexScanTupRandomFactor + residual +
      model.unusedKeys table index condition)

/-- By how much checking a condition on an index of an append-only table costs more. -/
def appendOnlyFilterFactor : Float := 100.0

/-- The share of the pages that an index-only scan has to visit because some of their
rows are not visible to everybody. Append-only tables count as if there were none. -/
def visitedShare (table : Table) : Float :=
  if table.storage.isAppendOnly then 0.0
  else if table.stats.pages = 0 then 1.0
  else 1.0 - table.stats.visiblePages.toFloat / table.stats.pages.toFloat

/-- Taking rows from an index, and from the table where it has to be visited. -/
def indexOnlyScan (model : Model) (table : Table) (index : IndexDescriptor)
    (condition : IndexCondition) (stats : NodeStats) : Float :=
  let filter :=
    if table.storage.isAppendOnly then model.price .indexFilterCostUnit * appendOnlyFilterFactor
    else model.price .indexFilterCostUnit
  let perRow := index.keyColumns.length.toFloat * filter +
    table.stats.width * model.price .indexScanTupCostUnit * visitedShare table +
    index.includedWidth * model.price .indexOnlyScanTupCostUnit
  stats.rebinds *
    (stats.rows * perRow + model.price .indexScanTupRandomFactor +
      model.unusedKeys table index condition)

/-- How many distinct values a bitmap scan looks up; one when it is not known. -/
def bitmapValues (probe : BitmapProbe) (condition : BitmapCondition) (stats : NodeStats) : Float :=
  if stats.rows < 1.0 then stats.rows
  else
    match condition.localColumns with
    | [column] =>
        if 1.0 < distinctCount condition.usedColumns && probe.equality then 1.0
        else (stats.distinctValues.get? column).getD 1.0
    | _ => 1.0

/-- A bitmap scan without a single probe that could be reckoned with. -/
def plainBitmapScan (model : Model) (stats : NodeStats) : Float :=
  stats.rebinds *
      (stats.rows * stats.width * model.price .indexFilterCostUnit +
        model.price .bitmapScanRebindCost) +
    model.price .initScanFactor

/-- A bitmap scan before the calibration. -/
def legacyBitmapScan (model : Model) (values : Float) (stats : NodeStats) : Float :=
  if model.price .bitmapNdvThreshold ≤ values then
    let size := stats.rows * stats.width * values * 0.001
    stats.rebinds *
      (model.price .bitmapIoCostLargeNdv * size + model.price .bitmapPageCostLargeNdv * values)
  else
    let size := stats.rows * stats.width * 0.001
    let effective := if stats.rows < 1.0 then stats.rows else values
    stats.rebinds *
      (model.price .bitmapIoCostSmallNdv * size + model.price .bitmapPageCostSmallNdv * effective)

/-- A bitmap scan after the calibration. -/
def calibratedBitmapScan (model : Model) (table : Table) (type : IndexType) (values : Float)
    (stats : NodeStats) : Float :=
  let page := if type = .btree then 0.0 else model.price .bitmapPageCost
  let init := model.price .initScanFactor * 0.9
  let size := model.price .bitmapIoCostSmallNdv *
    (stats.rows * 0.03 + stats.rows * stats.width * 0.0001)
  let union :=
    if !table.storage.isAppendOnly && type == .bitmap && 1.0 < values then
      larger (values - 1.0) 0.0 * table.stats.rows * 0.000027
    else 0.0
  stats.rebinds * (size + values * page + model.price .bitmapScanRebindCost + union) + init

/-- Finding rows by one or more indexes and reading the table in the order of its
pages. -/
def bitmapScan (model : Model) (table : Table) (condition : BitmapCondition)
    (stats : NodeStats) : Float :=
  match condition.probe with
  | none => model.plainBitmapScan stats
  | some probe =>
      let listSearch := probe.index.type == .btree && probe.arrayCompare
      if condition.localColumns.length ≤ 1 && !(listSearch && 2.0 < stats.rows && model.legacy) then
        let values := bitmapValues probe condition stats
        if model.legacy then model.legacyBitmapScan values stats
        else model.calibratedBitmapScan table probe.index.type values stats
      else model.plainBitmapScan stats

/-- Reading a table in one of the ways. -/
def scan (model : Model) (table : Table) (stats : NodeStats) : Access → Float
  | .sequential => model.tableScan table stats
  | .foreign => model.tableScan table stats
  | .index index condition => model.indexScan table index condition stats
  | .indexOnly index condition => model.indexOnlyScan table index condition stats
  | .bitmap condition => model.bitmapScan table condition stats

/-! ## Other leaves -/

/-- Reading the rows that a common table expression gave. -/
def cteConsumer (model : Model) (stats : NodeStats) : Float :=
  let unit := model.price .tableScanCostUnit + model.price .outputTupCostUnit
  stats.rebinds * (model.price .initScanFactor + stats.rows * stats.width * unit)

/-! ## Aggregates -/

/-- The rows that an aggregation is charged for. When every segment may give the same
group, all of them are. -/
def groupRows (model : Model) (stage : AggStage) (generatesDuplicates : Bool) (rows : Float) :
    Float :=
  if stage = .onSegment ∧ generatesDuplicates then rows * model.segments.toNat.toFloat else rows

/-- Forming groups in a hash table. -/
def hashAgg (model : Model) (columns : List ColumnId) (groupRows : Float) (child : CostedChild)
    (stats : NodeStats) : Float :=
  let input := child.stats.rows
  let count := columns.length.toFloat
  stats.rebinds *
    (input * count * model.price .hashAggInputTupColumnCostUnit +
      input * count * stats.width * model.price .hashAggInputTupWidthCostUnit +
      groupRows * stats.width * model.price .hashAggOutputTupWidthCostUnit)

/-- Forming groups from sorted input. -/
def streamAgg (model : Model) (groupRows : Float) (child : CostedChild) (stats : NodeStats) :
    Float :=
  stats.rebinds *
    (child.stats.rows * child.stats.width * model.price .tupDefaultProcCostUnit +
      groupRows * stats.width * model.price .hashAggOutputTupWidthCostUnit)

/-- Computing aggregates of all rows together. -/
def scalarAgg (model : Model) (columns functions : Nat) (child : CostedChild) (stats : NodeStats) :
    Float :=
  stats.rebinds * child.stats.rows * child.stats.width * columns.toFloat * functions.toFloat *
    model.price .hashAggInputTupWidthCostUnit

/-- Sorting; fewer than two rows count as two. -/
def sort (model : Model) (stats : NodeStats) : Float :=
  let rows := larger stats.rows 2.0
  stats.rebinds * rows * rows.log2 * stats.width * model.price .sortTupWidthCostUnit

/-! ## Joins -/

/-- The inputs of a hash join that are redistributed. -/
def redistributedInputs (children : List CostedChild) : List RedistributedInput :=
  (children.take 2).filterMap fun child =>
    match child.op with
    | .motion (.redistribute columns _) => some ⟨columns, child.stats⟩
    | _ => none

/-- Building a hash table and searching it. -/
def hashJoin (model : Model) (columns : List ColumnId) (outer inner stats : NodeStats) : Float :=
  let count := distinctCount columns
  let hashTable := inner.rows *
    (count * model.price .hjHashTableColumnCostUnit +
      inner.width * model.price .hjHashTableWidthCostUnit)
  let output := stats.rows * stats.width * model.price .joinOutputTupCostUnit
  let work :=
    match spillRegime inner.rows inner.width (model.price .hjSpillingMemThreshold) with
    | .inMemory =>
        hashTable +
          count * outer.rows * model.price .joinFeedingTupColumnCostUnit +
          outer.width * outer.rows * model.price .joinFeedingTupWidthCostUnit +
          inner.width * inner.rows * model.price .hjHashingTupWidthCostUnit +
          output
    | .spilling =>
        model.price .hjHashTableInitCostFactor +
          hashTable +
          count * outer.rows * model.price .hjFeedingTupColumnSpillingCostUnit +
          outer.width * outer.rows * model.price .hjFeedingTupWidthSpillingCostUnit +
          inner.width * inner.rows * model.price .hjHashingTupWidthSpillingCostUnit +
          output
  stats.rebinds * work

/-- Merging two sorted inputs. -/
def mergeJoin (model : Model) (columns : List ColumnId) (outer inner stats : NodeStats) : Float :=
  let count := distinctCount columns
  stats.rebinds *
    (count * outer.rows * model.price .joinFeedingTupColumnCostUnit +
      outer.width * outer.rows * model.price .joinFeedingTupWidthCostUnit +
      (inner.rows + outer.rows) * count * model.price .filterColCostUnit +
      stats.rows * inner.width * model.price .outputTupCostUnit +
      stats.rows * stats.width * model.price .joinOutputTupCostUnit)

/-- Searching an index for every row of the outer input. -/
def indexJoin (model : Model) (columns : List ColumnId) (outer stats : NodeStats) : Float :=
  let count := distinctCount columns
  stats.rebinds *
    (count * outer.rows * model.price .joinFeedingTupColumnCostUnit +
      outer.width * outer.rows * model.price .joinFeedingTupWidthCostUnit +
      stats.rows * stats.width * model.price .joinOutputTupCostUnit)

/-- Reading the inner input for every row of the outer one. -/
def loopJoin (model : Model) (columns : List ColumnId) (outer inner stats : NodeStats) : Float :=
  let count := distinctCount columns
  let rescans := outer.rows *
    (inner.rows * inner.width * model.price .tableScanCostUnit +
      inner.rows * count * model.price .filterColCostUnit)
  stats.rebinds *
    (count * outer.rows * model.price .joinFeedingTupColumnCostUnit +
      outer.width * outer.rows * model.price .joinFeedingTupWidthCostUnit +
      model.price .initScanFactor +
      rescans +
      stats.rows * inner.width * model.price .outputTupCostUnit +
      stats.rows * stats.width * model.price .joinOutputTupCostUnit)

/-- By how much a risky estimate multiplies the cost of an index nested loop join. -/
def indexJoinFactor (model : Model) (kind : IndexJoinKind) (risk : Float) : Float :=
  if kind == .inner && model.price .indexJoinAllowedRiskThreshold < risk then risk else 1.0

/-- By how much a risky estimate multiplies the cost of a nested loop join. -/
def loopJoinFactor (model : Model) (risk : Float) : Float :=
  let penalty := model.price .nljFactor
  if penalty < risk && model.price .indexJoinAllowedRiskThreshold < risk then risk else penalty

/-! ## Motions -/

/-- What sending a unit costs, and what receiving costs in all. -/
def sendAndReceive (model : Model) (input stats : NodeStats) : Motion → Float × Float
  | .broadcast _ =>
      (model.price .broadcastSendCostUnit,
        input.rows * input.width * model.segments.toNat.toFloat *
          model.price .broadcastRecvCostUnit)
  | .redistribute _ true =>
      (model.price .noOpCostUnit, stats.rows * stats.width * model.price .noOpCostUnit)
  | .gather =>
      (model.price .gatherSendCostUnit,
        input.rows * input.width * model.segments.toNat.toFloat * model.price .gatherRecvCostUnit)
  | _ =>
      (model.price .redistributeSendCostUnit,
        stats.rows * stats.width * model.price .redistributeRecvCostUnit)

/-- Sending rows between segments. -/
def motion (model : Model) (kind : Motion) (input stats : NodeStats) : Float :=
  let (send, receive) := model.sendAndReceive input stats kind
  let threshold := model.broadcastThreshold
  if kind = .broadcast false ∧ threshold ≠ 0 ∧ threshold.toNat.toFloat < input.rows then
    broadcastPenalty
  else stats.rebinds * (input.rows * input.width * send + receive)

/-! ## Putting the parts together -/

/-- What a partition selector under a filter stands for: the scan below it, which a
filter sees in place of the selector. -/
structure Unveiled where
  op : Operator
  cost : Amount
  rows : Float

/-- Look through a child of a node with its scan id at the scan that it selects for. The
selector itself stands for the scan unless the two belong together. -/
def unveil (arena : Arena) (id position scanId : Nat) (child : CostedChild) (filtered : Float) :
    Unveiled :=
  match arena.grandchild? id position 0 with
  | none => ⟨child.op, child.cost, child.stats.rows⟩
  | some below =>
      if below.op.dynamicScanId = some scanId then
        match below.cost with
        | some cost => ⟨below.op, cost, filtered⟩
        | none => ⟨below.op, child.cost, child.stats.rows⟩
      else ⟨below.op, child.cost, child.stats.rows⟩

/-- What a child adds to the cost of a node: its own cost, and for a scan the cost of
giving its rows to the node. A filter takes the rows that it lets pass only. -/
def childCost (model : Model) (arena : Arena) (id position : Nat) (underFilter : Bool)
    (filtered : Float) (child : CostedChild) : Float :=
  let seen : Unveiled :=
    match child.op with
    | .partitionSelector scanId =>
        if underFilter then unveil arena id position scanId child filtered
        else ⟨child.op, child.cost, child.stats.rows⟩
    | op =>
        ⟨op, child.cost, if underFilter && op.isScan then filtered else child.stats.rows⟩
  if seen.op.isScan then
    seen.cost.value + model.scanOutput seen.rows child.stats.width child.stats.rebinds
  else seen.cost.value

/-- What all children add to the cost of a node. -/
def childrenCost (model : Model) (arena : Arena) (id : Nat) (parent : Operator)
    (costing : Costing) : Except Fault Amount :=
  let underFilter :=
    match parent with
    | .filter _ => true
    | _ => false
  Amount.ofFloat <| costing.children.zipIdx.foldl (fun total (child, position) =>
    total + model.childCost arena id position underFilter costing.stats.rows child) 0.0

/-- What operators without children cost. -/
def leafCost? (model : Model) (stats : NodeStats) : Operator → Option Float
  | .scan table _ access => some (model.scan table stats access)
  | .cteConsumer _ => some (model.cteConsumer stats)
  | .constTable => some (model.passing stats)
  | .tableFunction => some (model.passing stats)
  | _ => none

/-- What an operator with children costs itself. -/
def localCost (model : Model) (costing : Costing) : Operator → Except Error Float
  | .filter columns => do
      let child ← costing.child 0
      return costing.stats.rebinds * child.stats.rows * distinctCount columns *
        model.price .filterColCostUnit
  | .computeScalar callsFunction =>
      let passing := model.passing costing.stats
      return if callsFunction then passing + model.price .scalarFuncCost * costing.stats.rows
        else passing
  | .sequenceProject sortColumns => do
      let child ← costing.child 0
      return costing.stats.rebinds * sortColumns.toFloat * child.stats.rows * child.stats.width *
        model.price .tupDefaultProcCostUnit
  | .cteProducer _ => do
      let passing := model.passing costing.stats
      let stats := costing.stats
      match (← costing.child 0).op with
      | .spool =>
          return passing +
            stats.rebinds * stats.rows * stats.width * model.price .materializeCostUnit
      | .sort _ =>
          return passing +
            stats.rebinds * stats.rows * stats.width * model.price .materializeCostUnit
      | _ => return passing
  | .modify => do
      let child ← costing.child 0
      return costing.stats.rebinds * child.stats.rows * child.stats.width /
        model.price .tupUpdateBandwidth
  | .aggregate grouping _ columns stage generatesDuplicates => do
      let child ← costing.child 0
      let rows := model.groupRows stage generatesDuplicates costing.stats.rows
      match grouping with
      | .hash => return model.hashAgg columns rows child costing.stats
      | .stream => return model.streamAgg rows child costing.stats
  | .scalarAgg columns functions => do
      return model.scalarAgg columns functions (← costing.child 0) costing.stats
  | .sort _ => return model.sort costing.stats
  | .hashJoin _ columns => do
      return model.hashJoin columns (← costing.child 0).stats (← costing.child 1).stats costing.stats
  | .mergeJoin columns => do
      return model.mergeJoin columns (← costing.child 0).stats (← costing.child 1).stats costing.stats
  | .indexJoin _ columns => do
      return model.indexJoin columns (← costing.child 0).stats costing.stats
  | .loopJoin _ columns => do
      return model.loopJoin columns (← costing.child 0).stats (← costing.child 1).stats costing.stats
  | .motion kind => do
      return model.motion kind (← costing.child 0).stats costing.stats
  | _ => return model.passing costing.stats

/-- The skew ratio of a hash join over the given children. -/
def skewRatio (model : Model) (children : List CostedChild) : Except Fault Float :=
  if model.penalizesSkew then model.skewPolicy.ratio (redistributedInputs children) else .ok 1.0

/-- The cost of a hash join whose children cost `below`. -/
def hashJoinCost (model : Model) (costing : Costing) (own : Float) (below : Amount) :
    Except Fault Amount := do
  if model.discardsRedistribution && !(redistributedInputs costing.children).isEmpty then
    Amount.ofFloat discardedCost
  else
    let ratio ← model.skewRatio costing.children
    return below + (← Amount.ofFloat (own * ratio))

/-- The cost of an operator from what it costs itself and what its children cost. -/
def combine (model : Model) (costing : Costing) (own : Float) (below : Except Fault Amount) :
    Operator → Except Fault Amount
  | .hashJoin .. => do model.hashJoinCost costing own (← below)
  | .indexJoin kind _ => do
      let total ← Amount.ofFloat (own + (← below).value)
      total.scale (model.indexJoinFactor kind costing.stats.risk)
  | .loopJoin .. => do
      let total ← Amount.ofFloat (own + (← below).value)
      total.scale (model.loopJoinFactor costing.stats.risk)
  | _ => do
      let own ← Amount.ofFloat own
      return own + (← below)

/-- The cost of an operator at a node. -/
def operatorCost (model : Model) (arena : Arena) (id : Nat) (op : Operator) (costing : Costing) :
    Except Failure Amount := do
  match model.leafCost? costing.stats op with
  | some cost => Failure.ofFault (Amount.ofFloat cost)
  | none =>
      match op with
      | .parallelUnion => return Amount.maximum (costing.children.map CostedChild.cost)
      | op =>
          match model.localCost costing op with
          | .error cause => .error (.error cause)
          | .ok own =>
              Failure.ofFault (model.combine costing own (model.childrenCost arena id op costing) op)

/-- The cost of a node whose children have their costs. -/
def nodeCost (model : Model) (arena : Arena) (id : Nat) : Except Failure Amount :=
  match arena.node id, Costing.ofNode arena id with
  | .ok node, .ok costing => model.operatorCost arena id node.op costing
  | .error cause, _ => .error (.error cause)
  | _, .error cause => .error (.error cause)

/-- The cost of a node, and the arena with that cost noted. -/
def noteCost (model : Model) (arena : Arena) (id : Nat) : Except Failure Amount × Arena :=
  match model.nodeCost arena id with
  | .error failure => (.error failure, arena)
  | .ok cost =>
      match arena.setCost id cost with
      | .ok arena => (.ok cost, arena)
      | .error cause => (.error (.error cause), arena)

/-- Do something for each of some nodes, up to the first for which it fails. -/
def forNodes (step : Arena → Nat → Except Failure Amount × Arena) (arena : Arena) :
    List Nat → Except Failure Unit × Arena
  | [] => (.ok (), arena)
  | id :: rest =>
      match step arena id with
      | (.ok _, arena) => forNodes step arena rest
      | (.error failure, arena) => (.error failure, arena)

/-- Note the costs of the nodes below a node and of the node itself, children first,
where they are not known, on at most `levels` levels. Costs that were noted before a
failure stay. -/
def treeCostWithin (model : Model) : (levels : Nat) → Arena → Nat → Except Failure Amount × Arena
  | 0, arena, _ => (.error .exhausted, arena)
  | levels + 1, arena, id =>
      match arena.cost? id with
      | some cost => (.ok cost, arena)
      | none =>
          match arena.node id with
          | .error cause => (.error (.error cause), arena)
          | .ok node =>
              match forNodes (model.treeCostWithin levels) arena node.children with
              | (.error failure, arena) => (.error failure, arena)
              | (.ok (), arena) => model.noteCost arena id

/-- The cost of the plan below a node; all costs that it needs are noted. -/
def treeCost (model : Model) (arena : Arena) (id : Nat) : Except Failure Amount × Arena :=
  model.treeCostWithin (id + 1) arena id

end Model

end Warehouse.Cost
