import Warehouse.Plan.Operator

/-! # Plan hints

Users can demand or forbid ways of reading a table and of joining some tables. A hint
for tables and joins that it does not name says nothing. -/

namespace Warehouse.Hint

open Plan

/-- The ways of reading a table that hints speak of. -/
inductive ScanMethod where
  | sequential
  | index
  | indexOnly
  | bitmap
  deriving DecidableEq, Repr

/-- The ways of joining that hints speak of. -/
inductive JoinMethod where
  | nestedLoop
  | hash
  | merge
  deriving DecidableEq, Repr

/-- All ways of reading a table. -/
def ScanMethod.all : List ScanMethod := [sequential, index, indexOnly, bitmap]

/-- The name of a way of reading a table. -/
def ScanMethod.name : ScanMethod → String
  | sequential => "SeqScan"
  | index => "IndexScan"
  | indexOnly => "IndexOnlyScan"
  | bitmap => "BitmapScan"

/-- All ways of joining. -/
def JoinMethod.all : List JoinMethod := [nestedLoop, hash, merge]

/-- The name of a way of joining in hints. -/
def JoinMethod.name : JoinMethod → String
  | nestedLoop => "NestLoop"
  | hash => "HashJoin"
  | merge => "MergeJoin"

/-- A method that is demanded, or forbidden. -/
structure Rule (method : Type) where
  forbids : Bool
  method : method
  deriving DecidableEq, Repr

namespace Rule

variable {method : Type}

/-- Whether the rule lets a method pass. -/
def accepts [DecidableEq method] (rule : Rule method) (given : method) : Bool :=
  if rule.forbids then given ≠ rule.method else given = rule.method

/-- The name of a rule. -/
def name (nameOf : method → String) (rule : Rule method) : String :=
  (if rule.forbids then "No" else "") ++ nameOf rule.method

/-- The rules for some methods, the demanding one first for each. -/
def all (methods : List method) : List (Rule method) :=
  methods.flatMap fun method => [⟨false, method⟩, ⟨true, method⟩]

end Rule

/-- A hint for reading a table. -/
structure ScanHint where
  relation : String
  /-- The indexes that the hint is about; all if it names none. -/
  indexNames : List String
  /-- The rules that have to hold together. -/
  rules : List (Rule ScanMethod)
  deriving DecidableEq, Repr

/-- Whether all rules of the hint let a method pass. -/
def ScanHint.accepts (hint : ScanHint) (method : ScanMethod) : Bool :=
  hint.rules.all fun rule => rule.accepts method

/-- A hint for the join of exactly the tables named. -/
structure JoinHint where
  aliases : List String
  rule : Rule JoinMethod
  deriving DecidableEq, Repr

/-- Whether the hint is about the join of the given tables, in any order and with any
repetitions. -/
def JoinHint.covers (hint : JoinHint) (aliases : List String) : Bool :=
  (hint.aliases.all fun name => aliases.contains name) &&
    aliases.all fun name => hint.aliases.contains name

/-- The hints for a query. -/
structure Hints where
  scans : List ScanHint
  joins : List JoinHint
  deriving DecidableEq, Repr

namespace Hints

/-- No hints. -/
def none : Hints := ⟨[], []⟩

/-- Whether there are no hints. -/
def isEmpty (hints : Hints) : Bool := hints.scans.isEmpty && hints.joins.isEmpty

/-- The first hint for reading a table. -/
def forScan (hints : Hints) (relation : String) : Option ScanHint :=
  hints.scans.find? fun hint => hint.relation == relation

/-- The first hint for the join of some tables. -/
def forJoin (hints : Hints) (aliases : List String) : Option JoinHint :=
  hints.joins.find? fun hint => hint.covers aliases

end Hints

/-- What a hint sees of an alternative. -/
inductive Candidate where
  | scan (relation : String) (method : ScanMethod) (index : Option String)
  | join (aliases : List String) (method : JoinMethod)
  deriving DecidableEq, Repr

namespace Candidate

/-- What hints see of a way of reading a table. -/
def ofAccess (relation : String) : Access → Candidate
  | .sequential => scan relation .sequential none
  | .foreign => scan relation .sequential none
  | .index index _ => scan relation .index (some index.name)
  | .indexOnly index _ => scan relation .indexOnly (some index.name)
  | .bitmap condition =>
      scan relation .bitmap (condition.probe.map fun probe => probe.index.name)

/-- What hints see of an operator over the given tables, if they constrain it at all. -/
def ofOperator (aliases : List String) : Operator → Option Candidate
  | .scan table _ access => some (ofAccess table.name access)
  | .hashJoin .. => some (join aliases .hash)
  | .loopJoin .. => some (join aliases .nestedLoop)
  | .indexJoin .. => some (join aliases .nestedLoop)
  | .mergeJoin _ => some (join aliases .merge)
  | _ => none

/-- The text of a candidate. -/
def text : Candidate → String
  | scan relation method (some index) => s!"{method.name}({relation} using {index})"
  | scan relation method none => s!"{method.name}({relation})"
  | join aliases method => method.name ++ "(" ++ " ".intercalate aliases ++ ")"

end Candidate

/-- A rule that says which alternatives the hints of a query allow. -/
abbrev Predicate := Candidate → Hints → Bool

/-- A hint for a table that names indexes is about these only, as far as an alternative
uses an index; it does not allow the others. -/
def allows : Predicate
  | .scan relation method index, hints =>
      match hints.forScan relation with
      | none => true
      | some hint =>
          hint.accepts method &&
            index.all fun name => hint.indexNames.isEmpty || hint.indexNames.contains name
  | .join aliases method, hints =>
      match hints.forJoin aliases with
      | none => true
      | some hint => hint.rule.accepts method

end Warehouse.Hint
