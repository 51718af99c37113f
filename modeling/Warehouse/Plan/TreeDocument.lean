import Warehouse.Plan.OperatorDocument
import Warehouse.Plan.Tree

/-! # Plans in documents

A plan is an object for its root, which holds those for its children. How doubles are
written is up to the caller. -/

namespace Warehouse.Plan.Tree

open Json Cost

mutual

/-- The document that shows a plan. -/
def encode (number : Float → Value) : Tree → Value
  | node op stats cost children =>
      .ofMembers [("op", op.encode), ("rows", number stats.rows), ("width", number stats.width),
        ("cost", (cost.map fun cost : Amount => number cost.value).getD .null),
        ("children", .array (encodeAll number children))]

/-- The documents that show several plans. -/
def encodeAll (number : Float → Value) : List Tree → List Value
  | [] => []
  | tree :: rest => encode number tree :: encodeAll number rest

end

end Warehouse.Plan.Tree
