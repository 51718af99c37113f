import Warehouse.Plan.Document
import Warehouse.Plan.Operator

/-! # Operators in documents

An operator is an object with its name and the fields that it needs; tables stand in it
by their names. -/

namespace Warehouse.Plan.Operator

open Json

/-- The condition of an index scan. -/
def decodeIndexCondition : Decoder IndexCondition := fun value => do
  return ⟨← Decode.member "used" decodeColumns [] value,
    ← Decode.member "residual" Decode.nat64 0 value⟩

/-- The index of an index scan. -/
def decodeIndex : Decoder IndexDescriptor := fun value => do
  IndexDescriptor.decode (← value.member? "index")

/-- The condition of a bitmap scan; without an index it has no probe. -/
def decodeBitmapCondition : Decoder BitmapCondition := fun value => do
  let equality ← Decode.member "equality" Decode.bool false value
  let arrayCompare ← Decode.member "array_compare" Decode.bool false value
  let probe ← match value.member? "index" with
    | none => pure none
    | some index => (fun index => some ⟨index, equality, arrayCompare⟩) <$> IndexDescriptor.decode index
  return ⟨probe, ← Decode.member "used" decodeColumns [] value,
    ← Decode.member "outer" decodeColumns [] value⟩

/-- The way of reading a table that a name stands for. -/
def decodeAccess (name : String) : Decoder Access := fun value =>
  match name with
  | "TableScan" => some .sequential
  | "ForeignScan" => some .foreign
  | "IndexScan" => do return .index (← decodeIndex value) (← decodeIndexCondition value)
  | "IndexOnlyScan" => do return .indexOnly (← decodeIndex value) (← decodeIndexCondition value)
  | "BitmapTableScan" => .bitmap <$> decodeBitmapCondition value
  | _ => none

/-- A scan of one of the given tables. -/
def decodeScan (tables : List Table) (name : String) : Decoder Operator := fun value => do
  let tableName ← Decode.member "table" Decode.text "" value
  let table ← tables.find? fun table => table.name == tableName
  if name.startsWith "Dynamic" then
    let scanId ← Decode.member "scan_id" Decode.nat32 0 value
    return scan table (some scanId) (← decodeAccess (name.drop 7).toString value)
  else return scan table none (← decodeAccess name value)

/-- The columns of an operator. -/
def decodeColumnField : Decoder (List ColumnId) := Decode.member "columns" decodeColumns []

/-- An aggregation. -/
def decodeAggregate (grouping : Grouping) (deduplicates : Bool) : Decoder Operator := fun value => do
  return aggregate grouping deduplicates (← decodeColumnField value)
    (← Decode.member "stage" (Decode.oneOf AggStage.name AggStage.all) .global value)
    (← Decode.member "duplicates" Decode.bool false value)

/-- The kind of a join. -/
def decodeKind {kind : Type} (nameOf : kind → String) (all : List kind) (default : kind) :
    Decoder kind :=
  Decode.member "kind" (Decode.oneOf nameOf all) default

/-- A whole number in a field, zero by default. -/
def decodeNumber (name : String) : Decoder Nat := Decode.member name Decode.nat64 0

/-- An operator that reads one of the given tables, or none. -/
def decode (tables : List Table) : Decoder Operator := fun value => do
  let name ← Decode.member "name" Decode.text "" value
  let columns ← decodeColumnField value
  match name with
  | "Filter" => return filter columns
  | "ComputeScalar" => return computeScalar (← Decode.member "scalar_func" Decode.bool false value)
  | "Assert" => return assertion
  | "Limit" => return limit
  | "PartitionSelector" => return partitionSelector (← decodeNumber "scan_id" value)
  | "Split" => return split
  | "Spool" => return spool
  | "SequenceProject" => return sequenceProject (← decodeNumber "sort_columns" value)
  | "CteProducer" => return cteProducer (← decodeNumber "cte_id" value)
  | "CteConsumer" => return cteConsumer (← decodeNumber "cte_id" value)
  | "ConstTableGet" => return constTable
  | "Tvf" => return tableFunction
  | "Dml" => return modify
  | "HashAgg" => decodeAggregate .hash false value
  | "HashAggDeduplicate" => decodeAggregate .hash true value
  | "StreamAgg" => decodeAggregate .stream false value
  | "StreamAggDeduplicate" => decodeAggregate .stream true value
  | "ScalarAgg" =>
      return scalarAgg (← decodeNumber "agg_columns" value) (← decodeNumber "agg_functions" value)
  | "Sequence" => return sequence
  | "SerialUnionAll" => return serialUnion
  | "ParallelUnionAll" => return parallelUnion
  | "Sort" => return sort columns
  | "HashJoin" =>
      return hashJoin (← decodeKind HashJoinKind.name HashJoinKind.all .inner value) columns
  | "FullMergeJoin" => return mergeJoin columns
  | "IndexNLJoin" =>
      return indexJoin (← decodeKind IndexJoinKind.name IndexJoinKind.all .inner value) columns
  | "NLJoin" =>
      return loopJoin (← decodeKind LoopJoinKind.name LoopJoinKind.all .inner value) columns
  | "GatherMotion" => return motion .gather
  | "BroadcastMotion" =>
      return motion (.broadcast (← Decode.member "ignore_threshold" Decode.bool false value))
  | "RedistributeMotion" =>
      return motion (.redistribute columns (← Decode.member "no_op" Decode.bool false value))
  | "RandomMotion" => return motion .random
  | "RoutedDistributeMotion" => return motion .routed
  | name => decodeScan tables name value

/-- The fields of an index scan. -/
def encodeIndex (index : IndexDescriptor) (condition : IndexCondition) : List (String × Value) :=
  [("index", .text index.name), ("used", .ofNats condition.usedColumns),
    ("residual", .whole condition.residualPredicates)]

/-- The fields of a bitmap scan. -/
def encodeBitmap (condition : BitmapCondition) : List (String × Value) :=
  [("used", .ofNats condition.usedColumns), ("local", .ofNats condition.localColumns)] ++
    match condition.probe with
    | none => []
    | some probe =>
        [("index", .text probe.index.name), ("equality", .bool probe.equality),
          ("array_compare", .bool probe.arrayCompare)]

/-- The fields of a way of reading a table. -/
def encodeAccess : Access → List (String × Value)
  | .index index condition => encodeIndex index condition
  | .indexOnly index condition => encodeIndex index condition
  | .bitmap condition => encodeBitmap condition
  | _ => []

/-- The fields of an operator that a document shows. -/
def encodeFields : Operator → List (String × Value)
  | scan table scanId access =>
      [("table", .text table.name)] ++
        (scanId.toList.map fun id => ("scan_id", .whole id)) ++ encodeAccess access
  | filter columns => [("columns", .ofNats columns)]
  | sort columns => [("columns", .ofNats columns)]
  | aggregate _ false columns _ _ => [("columns", .ofNats columns)]
  | hashJoin _ columns => [("columns", .ofNats columns)]
  | loopJoin _ columns => [("columns", .ofNats columns)]
  | motion (.redistribute columns _) => [("columns", .ofNats columns)]
  | scalarAgg columns functions => [("agg", .array [.whole columns, .whole functions])]
  | _ => []

/-- The document that shows an operator. -/
def encode (operator : Operator) : Value :=
  .ofMembers (("name", .text operator.name) :: operator.encodeFields)

end Warehouse.Plan.Operator
