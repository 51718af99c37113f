import Warehouse.Plan.Operator
import Warehouse.Search.Memo

/-! # Alternatives

An alternative is a way to compute the rows of a group: an operator, together with what it
demands of the plans for its inputs and how the rows lie that it gives. -/

namespace Warehouse.Search

open Plan

/-- What a plan for a group has to deliver. -/
structure Requirement where
  distribution : Distribution
  /-- The columns that the rows are sorted by, if any. -/
  sort : List ColumnId
  deriving DecidableEq, Repr

namespace Requirement

/-- Rows that lie in some way, in any order. -/
def distributed (distribution : Distribution) : Requirement := ⟨distribution, []⟩

/-- The text of a requirement. -/
def text (requirement : Requirement) : String :=
  requirement.distribution.text ++
    if requirement.sort.isEmpty then "" else " sorted" ++ Distribution.columnsText requirement.sort

end Requirement

/-- What an alternative demands of the plan for an input. -/
inductive Demand where
  /-- The distribution that is demanded of the alternative itself. -/
  | inherit
  | exact (requirement : Requirement)
  deriving DecidableEq, Repr

/-- What is demanded of an input when the given distribution is demanded of the
alternative. -/
def Demand.under (distribution : Distribution) : Demand → Requirement
  | inherit => .distributed distribution
  | exact requirement => requirement

/-- An input of an alternative. -/
structure Request where
  group : GroupId
  demand : Demand
  deriving DecidableEq, Repr

namespace Request

/-- Rows that lie anywhere. -/
def anywhere (group : GroupId) : Request := ⟨group, .exact (.distributed .any)⟩

/-- Rows that lie in some way. -/
def distributed (group : GroupId) (distribution : Distribution) : Request :=
  ⟨group, .exact (.distributed distribution)⟩

end Request

/-- How the rows of an alternative lie. -/
inductive Delivery where
  | fixed (distribution : Distribution)
  /-- Like those of the input at a position. -/
  | ofInput (position : Nat)
  deriving DecidableEq, Repr

/-- The rules by which a group's expressions give others and alternatives. -/
inductive Rule where
  | tableScan
  | indexScan
  | indexOnlyScan
  | bitmapScan
  | filter
  | hashJoin
  | loopJoin
  /-- The sides of a join may be exchanged. -/
  | exchange
  | hashAgg
  | streamAgg
  deriving DecidableEq, Repr

namespace Rule

/-- All rules, in the order in which they are applied. -/
def all : List Rule :=
  [tableScan, indexScan, indexOnlyScan, bitmapScan, filter, hashJoin, loopJoin, exchange, hashAgg,
    streamAgg]

/-- The name of a rule. -/
def name : Rule → String
  | tableScan => "Get2TableScan"
  | indexScan => "Get2IndexScan"
  | indexOnlyScan => "Get2IndexOnlyScan"
  | bitmapScan => "Get2BitmapScan"
  | filter => "Select2Filter"
  | hashJoin => "InnerJoin2HashJoin"
  | loopJoin => "InnerJoin2NLJoin"
  | exchange => "JoinCommutativity"
  | hashAgg => "GbAgg2HashAgg"
  | streamAgg => "GbAgg2StreamAgg"

/-- Whether the rule gives expressions, and not alternatives. -/
def explores (rule : Rule) : Bool := rule = exchange

end Rule

/-- A way to compute the rows of a group. -/
structure Alternative where
  /-- The rule that gave it. -/
  rule : Rule
  op : Operator
  inputs : List Request
  delivery : Delivery

end Warehouse.Search
