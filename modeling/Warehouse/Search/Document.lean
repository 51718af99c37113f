import Warehouse.Plan.OperatorDocument
import Warehouse.Search.Rules

/-! # Memos in documents

A memo is shown with all that the rules find for its expressions. How doubles are written
is up to the caller. -/

namespace Warehouse.Search

open Json Plan Query

/-- The members that show the operation of an expression. -/
def GroupExpr.encodeOperation : GroupExpr → List (String × Value)
  | get table columns => [("get", .text table.name), ("columns", .ofNats columns)]
  | select conditions _ =>
      [("select", .array (conditions.map fun condition =>
        .array [.whole condition.column, .text condition.comparison.name]))]
  | join keys _ _ =>
      [("join", .array (keys.map fun key => .ofNats [key.left, key.right]))]
  | aggregate grouping calls _ =>
      [("agg", .ofNats grouping),
        ("functions", .array (calls.map fun call =>
          .array [.text call.function,
            (call.column.map fun column : Nat => Value.whole (column : Int)).getD .null]))]

/-- An expression: its operation and its inputs. -/
def GroupExpr.encode (expr : GroupExpr) : Value :=
  .array [.ofMembers expr.encodeOperation, .ofNats expr.inputs]

/-- What is demanded of an input. -/
def Demand.text : Demand → String
  | inherit => "inherit"
  | exact requirement => requirement.text

/-- How the rows of an alternative lie: a distribution, or the position of an input. -/
def Delivery.encode : Delivery → Value
  | fixed distribution => .text distribution.text
  | ofInput position => .whole position

/-- An alternative. -/
def Alternative.encode (alternative : Alternative) : Value :=
  .ofMembers [("xform", .text alternative.rule.name), ("op", alternative.op.encode),
    ("children", .array (alternative.inputs.map fun request =>
      .array [.whole request.group, .text request.demand.text])),
    ("delivers", alternative.delivery.encode)]

/-- What a rule finds for an expression of a group. -/
def Rule.encodeFindings (memo : Memo) (id : GroupId) (expr : GroupExpr) (rule : Rule) : List Value :=
  (rule.equivalents expr).map (fun found => .ofMembers [("logical", found.encode)]) ++
    (rule.alternatives memo id expr).map Alternative.encode

/-- The rules that find something for an expression of a group, with what they find. -/
def GroupExpr.encodeFindings (memo : Memo) (id : GroupId) (expr : GroupExpr) : List Value :=
  Rule.all.filterMap fun rule =>
    match rule.encodeFindings memo id expr with
    | [] => none
    | found => some (.array [.text rule.name, .bool rule.explores, .array found])

/-- A group with what the rules find for its expressions. -/
def Group.encode (number : Float → Value) (earlier : Memo) (group : Group) : Value :=
  .ofMembers [("exprs", .array (group.exprs.map GroupExpr.encode)),
    ("aliases", .array (group.aliases.map Value.text)), ("columns", .ofNats group.columns),
    ("rows", number group.stats.rows),
    ("xforms", .array (group.exprs.flatMap fun expr =>
      expr.encodeFindings earlier earlier.length))]

/-- The groups of a memo, the first one last. -/
def Memo.encodeGroups (number : Float → Value) : Memo → List Value
  | [] => []
  | group :: earlier => group.encode number earlier :: Memo.encodeGroups number earlier

/-- A memo with its last group as the root. -/
def Goal.encode (number : Float → Value) (goal : Goal) : Value :=
  .ofMembers [("root", .whole goal.id), ("expr_count", .whole goal.memo.exprCount),
    ("plan_rows", number goal.root.stats.rows),
    ("groups", .array (goal.memo.encodeGroups number).reverse)]

end Warehouse.Search
