import Warehouse.Error
import Warehouse.Json.Parser
import Warehouse.Plan.Document
import Warehouse.Query.Basic

/-! # Queries in documents

The kind of an expression is told by its member `op`. To find it, an expression is kept
as a whole before any of it is read, so that all of it has to be of use: also members
that nobody asks for must hold numbers that are doubles and strings that are texts, and
must not nest too deeply. -/

namespace Warehouse.Json.Value

mutual

/-- Whether a value can be kept as a whole: it has at most `levels` levels of arrays and
objects, no number is too large for a double, and all strings are texts. -/
def isRetainable (levels : Nat) : Value → Bool
  | .null => true
  | .bool _ => true
  | .whole value => (Decode.float (.whole value)).isSome
  | .decimal negative digits exponent => (Decode.float (.decimal negative digits exponent)).isSome
  | .string text => text.isSome
  | .array items =>
      match levels with
      | 0 => false
      | levels + 1 => areRetainable levels items
  | .object members =>
      match levels with
      | 0 => false
      | levels + 1 => membersRetainable levels members

/-- Whether all of some values can be kept. -/
def areRetainable (levels : Nat) : List Value → Bool
  | [] => true
  | item :: rest => isRetainable levels item && areRetainable levels rest

/-- Whether all of some members can be kept. -/
def membersRetainable (levels : Nat) : List (Text × Value) → Bool
  | [] => true
  | (name, value) :: rest =>
      name.isSome && isRetainable levels value && membersRetainable levels rest

end

end Warehouse.Json.Value

namespace Warehouse.Query

open Json Plan

/-- How many levels of arrays and objects a document may have. -/
def maxLevels : Nat := 127

/-- A comparison: its name in small letters. In a value that is kept as a whole an empty
object can take the place of null. -/
def Comparison.decode : Decoder Comparison := fun value =>
  match Decode.single value with
  | some (name, .object []) => Comparison.all.find? fun comparison => comparison.name.toLower == name
  | _ => Decode.oneOf (fun comparison : Comparison => comparison.name.toLower) Comparison.all value

/-- A condition; a comparison that is not named is for equality. -/
def Condition.decode : Decoder Condition := fun value => do
  let [column, comparison] ← Decode.fields ["column", "op"] value | none
  return ⟨← Decode.required Decode.nat32 column,
    ← Decode.withDefault Comparison.decode .eq comparison⟩

/-- A key of a join. -/
def JoinKey.decode : Decoder JoinKey := fun value => do
  let [left, right] ← Decode.fields ["left", "right"] value | none
  return ⟨← Decode.required Decode.nat32 left, ← Decode.required Decode.nat32 right⟩

/-- An aggregate. -/
def AggregateCall.decode : Decoder AggregateCall := fun value => do
  let [function, column] ← Decode.fields ["function", "column"] value | none
  return ⟨← Decode.required Decode.text function,
    ← Decode.withDefault (Decode.optional Decode.nat32) none column⟩

namespace Expr

/-- The kinds of expressions. -/
inductive Kind where
  | get
  | select
  | join
  | aggregate
  deriving DecidableEq, Repr

/-- The name of a kind. -/
def Kind.name : Kind → String
  | get => "get"
  | select => "select"
  | join => "inner_join"
  | aggregate => "gb_agg"

/-- All kinds, in the order of their numbers. -/
def Kind.all : List Kind := [get, select, join, aggregate]

/-- The fields of an expression of a kind, in order. -/
def Kind.fields : Kind → List String
  | get => ["table", "columns", "stats"]
  | select => ["predicates", "input", "stats"]
  | join => ["keys", "left", "right", "stats"]
  | aggregate => ["grouping", "aggregates", "input", "stats"]

/-- A kind: its name, or within another expression also its number. -/
def Kind.decode (inner : Bool) : Decoder Kind
  | .string (some name) => Kind.all.find? fun kind => kind.name == name
  | .whole number => if inner ∧ 0 ≤ number then Kind.all[number.toNat]? else none
  | _ => none

/-- The kind of an expression and its fields: an object with the kind as the member `op`,
or an array that begins with the kind. -/
def decodeParts (inner : Bool) : Value → Option (Kind × List (Option Value))
  | .object members =>
      match members.filter fun member => member.1 == some "op" with
      | [(_, tag)] => do
          let kind ← Kind.decode inner tag
          return (kind, ← Decode.fields kind.fields (.object members))
      | _ => none
  | .array (tag :: items) => do
      let kind ← Kind.decode inner tag
      return (kind, ← Decode.fields kind.fields (.array items))
  | _ => none

/-- An expression with at most `levels` levels. -/
def decodeWithin : (levels : Nat) → (inner : Bool) → Decoder Expr
  | 0, _ => fun _ => none
  | levels + 1, inner => fun value => do
      let (kind, fields) ← decodeParts inner value
      let part := Decode.required (decodeWithin levels true)
      let estimates := Decode.required NodeStats.decode
      match kind, fields with
      | .get, [table, columns, stats] =>
          return get (← Decode.required Decode.text table)
            (← Decode.withDefault (Decode.optional decodeColumns) none columns) (← estimates stats)
      | .select, [conditions, input, stats] =>
          return select (← Decode.required (Decode.list Condition.decode) conditions)
            (← part input) (← estimates stats)
      | .join, [keys, left, right, stats] =>
          return join (← Decode.required (Decode.list JoinKey.decode) keys)
            (← part left) (← part right) (← estimates stats)
      | .aggregate, [grouping, calls, input, stats] =>
          return aggregate (← Decode.withDefault decodeColumns [] grouping)
            (← Decode.withDefault (Decode.list AggregateCall.decode) [] calls)
            (← part input) (← estimates stats)
      | _, _ => none

/-- The expression of a query. The query is itself the first level of its document. -/
def decode : Decoder Expr := fun value =>
  if value.isRetainable (maxLevels - 1) then decodeWithin maxLevels false value else none

end Expr

/-- A query. -/
def decode : Decoder Query := fun value => do
  let [tables, expr] ← Decode.fields ["tables", "plan"] value | none
  return ⟨← Decode.required (Decode.list Table.decode) tables, ← Decode.required Expr.decode expr⟩

/-- What is reported for a document that is no query. -/
def malformed : Error := .serialization "JSON parse error: not a query"

/-- The query that the value of a document stands for. -/
def ofValue (value : Value) : Except Error Query :=
  match decode value with
  | some query => .ok query
  | none => .error malformed

/-- Read a query from a document. -/
def ofText (text : String) : Except Error Query :=
  match Json.parse text with
  | some value => ofValue value
  | none => .error malformed

end Warehouse.Query
