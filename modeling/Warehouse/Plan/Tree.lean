import Warehouse.Cost.Amount
import Warehouse.Plan.Operator

/-! # Plans as trees

A plan is a tree of operators, each with its statistics and, once it is known, its
cost. -/

namespace Warehouse.Plan

open Cost

/-- A plan. -/
inductive Tree where
  | node (op : Operator) (stats : NodeStats) (cost : Option Amount) (children : List Tree)

namespace Tree

/-- The operator at the root. -/
def op : Tree → Operator
  | node op .. => op

/-- The statistics of the root. -/
def stats : Tree → NodeStats
  | node _ stats .. => stats

/-- The cost of the root. -/
def cost : Tree → Option Amount
  | node _ _ cost _ => cost

/-- The subtrees of the root. -/
def children : Tree → List Tree
  | node _ _ _ children => children

/-- The line that explains one node at a depth. -/
def line (depth : Nat) (op : Operator) (stats : NodeStats) (cost : Option Amount) : String :=
  String.join [String.ofList (List.replicate (2 * depth) ' '), "-> ", op.name, op.detail,
    "  (rows=", Decimal.plain.text stats.rows, " width=", Decimal.plain.text stats.width,
    " cost=", (cost.map Amount.text).getD "?", ")\n"]

mutual

/-- The text that explains a plan: a line for every node, indented by its depth. -/
def explainFrom (depth : Nat) : Tree → String
  | node op stats cost children => line depth op stats cost ++ explainAll (depth + 1) children

/-- The text that explains several plans at a depth. -/
def explainAll (depth : Nat) : List Tree → String
  | [] => ""
  | tree :: rest => explainFrom depth tree ++ explainAll depth rest

end

/-- The text that explains a plan. -/
def explain (tree : Tree) : String := explainFrom 0 tree

mutual

/-- The number of nodes. -/
def size : Tree → Nat
  | node _ _ _ children => sizeAll children + 1

/-- The number of nodes of several plans. -/
def sizeAll : List Tree → Nat
  | [] => 0
  | tree :: rest => size tree + sizeAll rest

end

end Tree

end Warehouse.Plan
