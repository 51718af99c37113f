import Warehouse.Hint.Basic
import Warehouse.Json.Decode

/-! # Hints in documents -/

namespace Warehouse.Hint

open Json

/-- The name of a rule for reading a table. -/
def scanRuleName (rule : Rule ScanMethod) : String := rule.name ScanMethod.name

/-- The name of a rule for joining. -/
def joinRuleName (rule : Rule JoinMethod) : String := rule.name JoinMethod.name

/-- A hint for reading a table. -/
def ScanHint.decode : Decoder ScanHint := fun value => do
  let [relation, indexNames, types] ← Decode.fields ["relation", "index_names", "types"] value
    | none
  return ⟨← Decode.required Decode.text relation,
    ← Decode.withDefault (Decode.list Decode.text) [] indexNames,
    ← Decode.required (Decode.list (Decode.oneOf scanRuleName (Rule.all ScanMethod.all))) types⟩

/-- A hint for joining. -/
def JoinHint.decode : Decoder JoinHint := fun value => do
  let [aliases, joinType] ← Decode.fields ["aliases", "join_type"] value | none
  return ⟨← Decode.required (Decode.list Decode.text) aliases,
    ← Decode.required (Decode.oneOf joinRuleName (Rule.all JoinMethod.all)) joinType⟩

/-- The hints of a query. -/
def Hints.decode : Decoder Hints := fun value => do
  let [scans, joins] ← Decode.fields ["scan_hints", "join_type_hints"] value | none
  return ⟨← Decode.withDefault (Decode.list ScanHint.decode) [] scans,
    ← Decode.withDefault (Decode.list JoinHint.decode) [] joins⟩

/-- The document of a hint for reading a table. -/
def ScanHint.encode (hint : ScanHint) : Value :=
  .ofMembers [("relation", .text hint.relation),
    ("index_names", .array (hint.indexNames.map Value.text)),
    ("types", .array (hint.rules.map fun rule => .text (scanRuleName rule)))]

/-- The document of a hint for joining. -/
def JoinHint.encode (hint : JoinHint) : Value :=
  .ofMembers [("aliases", .array (hint.aliases.map Value.text)),
    ("join_type", .text (joinRuleName hint.rule))]

/-- The document of hints. -/
def Hints.encode (hints : Hints) : Value :=
  .ofMembers [("scan_hints", .array (hints.scans.map ScanHint.encode)),
    ("join_type_hints", .array (hints.joins.map JoinHint.encode))]

end Warehouse.Hint
