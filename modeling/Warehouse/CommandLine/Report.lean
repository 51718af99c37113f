import Warehouse.Json.Printer
import Warehouse.RangeIndex.Session
import Warehouse.Search.Optimizer

/-! # Reports

What commands print about plans, parameters and logged indexes. -/

namespace Warehouse.CommandLine

open Json Plan Cost Search RangeIndex

/-- A text after as many blanks as make it `width` characters long. -/
def alignRight (width : Nat) (text : String) : String :=
  String.ofList (List.replicate (width - text.length) ' ') ++ text

/-- A text before as many blanks as make it `width` characters long. -/
def alignLeft (width : Nat) (text : String) : String :=
  text ++ String.ofList (List.replicate (width - text.length) ' ')

/-- A text with a line for each of some lines. -/
def unlines (lines : List String) : String := String.join (lines.map fun line => line ++ "\n")

/-! ## Plans -/

/-- The lines below the explanation of a plan. -/
def planSummary (plan : ChosenPlan) (nanoseconds : Nat) : List String :=
  ["", s!"Total cost:       {plan.cost.text}", s!"Groups:           {plan.groups}",
    s!"Alternatives:     {plan.counters.costed} costed, {plan.counters.rejected} rejected by hints"] ++
    (if 0 < plan.violations then [s!"Hints ignored in: {plan.violations} group(s)"] else []) ++
    [String.join ["Planning time:    ", Decimal.fixed 3 (nanoseconds.toFloat / 1e6), " ms"]]

mutual

/-- The document for a plan, with the names of its members in order. -/
def treeValue : Tree → Value
  | .node op stats cost children =>
      .ofMembers [("children", .array (treeValues children)),
        ("cost", (cost.map fun cost : Amount => Value.ofFloat cost.value).getD .null),
        ("op", .text op.name),
        ("relation", (op.table?.map fun table : Table => Value.text table.name).getD .null),
        ("rows", .ofFloat stats.rows), ("width", .ofFloat stats.width)]

/-- The documents for several plans. -/
def treeValues : List Tree → List Value
  | [] => []
  | tree :: rest => treeValue tree :: treeValues rest

end

/-- The document for a chosen plan. -/
def planValue (plan : ChosenPlan) (tree : Tree) (nanoseconds : Nat) : Value :=
  .ofMembers [("cost", .ofFloat plan.cost.value),
    ("elapsed_us", .whole (nanoseconds / 1000 : Nat)), ("hint_violations", .whole plan.violations),
    ("plan", treeValue tree),
    ("stats", .ofMembers [("alternatives_costed", .whole plan.counters.costed),
      ("alternatives_rejected", .whole plan.counters.rejected),
      ("group_exprs", .whole plan.groupExprs), ("groups", .whole plan.groups),
      ("hint_fallbacks", .whole plan.counters.fallbacks)])]

/-! ## Parameters -/

/-- The line about a parameter. Those that the configuration sets are marked. -/
def paramLine (config : Config) (params : Params) (param : Param) : String :=
  String.join [alignLeft 40 param.name, " ",
    alignRight 16 (Decimal.scientific.text (params.get param)),
    if (config.params.lookup param).isSome then " *" else ""]

/-- The lines about all parameters of a configuration. -/
def paramLines (config : Config) : Except Error (List String) := do
  let params ← Params.withOverrides config.params
  return Param.all.map (paramLine config params)

/-! ## Logged indexes -/

/-- Lines, and what kept others from being found. -/
structure Report where
  lines : List String
  failure : Option Failure

namespace Report

/-- A report with nothing but a failure. -/
def ofFailure (failure : Failure) : Report := ⟨[], some failure⟩

/-- Put lines in front. -/
def prepend (lines : List String) (report : Report) : Report :=
  { report with lines := lines ++ report.lines }

end Report

/-- The line about the chain of a block sequence. -/
def chainLine (sequence : Nat) (chain : Chain) : String :=
  String.join ["  seq ", alignRight 3 (toString sequence), s!": first={chain.first} ",
    s!"last={chain.last} logical pages={chain.lastLogical}"]

/-- The lines about an index as a whole. -/
def indexLines (records : Nat) (contents : Metapage) : List String :=
  let numbered := contents.chains.toList.zipIdx
  [s!"Records replayed:  {records}", s!"Pages per range:   {contents.pagesPerRange}",
    s!"Append-optimized:  {contents.appendOnly}", s!"Last revmap page:  {contents.lastMapPage}"] ++
    if contents.appendOnly then
      (numbered.filter fun entry => !entry.1.isEmpty).map fun (chain, sequence) =>
        chainLine sequence chain
    else []

/-- The line about a table block. -/
def blockLine (heapBlock : BlockNumber) : Option FoundSummary → String
  | none => s!"heap block {heapBlock}: not summarized"
  | some found =>
      String.join [s!"heap block {heapBlock}: summary at ({found.place.block}, ",
        s!"{found.place.offset}) for range starting {found.summary.heapBlock}, ",
        s!"{found.summary.payload.length} payload bytes"]

/-- The lines about table blocks. -/
def blockLines : World → List BlockNumber → Report
  | _, [] => ⟨[], none⟩
  | world, heapBlock :: rest =>
      match (RangeMap.find Session.rounds heapBlock).run world with
      | (.error failure, _) => .ofFailure failure
      | (.ok found, world) => (blockLines world rest).prepend [blockLine heapBlock found]

/-- The report on table blocks of an index. -/
def blockReport (relation : Relation) (heapBlocks : List BlockNumber) : Report :=
  if heapBlocks.isEmpty then ⟨[], none⟩
  else
    match (openIndex relation.name).run ⟨relation, .empty, .unopened, []⟩ with
    | (.error failure, _) => .ofFailure failure
    | (.ok (), world) => blockLines world heapBlocks

/-- The contents of the metapage. -/
def metapageOf (relation : Relation) : Except Error Metapage :=
  match relation.page? metaBlock with
  | none => .error (.invalidBlock metaBlock)
  | some page => Metapage.read page relation.name metaBlock

/-- The report on the index whose changes a log holds. -/
def inspect (name : String) (log : List UInt8) (heapBlocks : List BlockNumber) : Report :=
  match Log.decodeLog log with
  | .error failure => .ofFailure failure
  | .ok records =>
      match Recovery.replay (.empty name none) records with
      | (.error failure, _) => .ofFailure failure
      | (.ok (), relation) =>
          match metapageOf relation with
          | .error cause => .ofFailure (.error cause)
          | .ok contents =>
              (blockReport relation heapBlocks).prepend (indexLines records.length contents)

end Warehouse.CommandLine
