import Warehouse.Cost.Model
import Warehouse.Hint.Document
import Warehouse.Json.Parser
import Warehouse.Json.Printer

/-! # Configuration of a session

A configuration is read from a document whose parts all have defaults. Before it is
used it is checked, and the first thing that is wrong with it is reported. -/

namespace Warehouse

open Json

/-- Which formulas are used for bitmap scans. -/
inductive BitmapFormulas where
  | calibrated
  | legacy
  deriving DecidableEq, Repr

/-- The configuration of a session of the optimizer. -/
structure Config where
  segments : Nat
  /-- The skew factor of the user; zero stands for none. -/
  skewFactor : Nat
  /-- Broadcasting more rows is penalised; zero stands for no limit. -/
  broadcastThreshold : Nat
  hints : Hint.Hints
  penalizesSkew : Bool
  discardsRedistribution : Bool
  bitmapFormulas : BitmapFormulas
  /-- Values of parameters, at most one each, in the order of the parameters. -/
  params : List (Cost.Param × Float)
  deriving BEq

namespace Config

/-- The configuration that an empty document stands for. -/
def default : Config where
  segments := 3
  skewFactor := 0
  broadcastThreshold := 100000
  hints := .none
  penalizesSkew := true
  discardsRedistribution := false
  bitmapFormulas := .calibrated
  params := []

/-- The name of a set of formulas. -/
def formulasName : BitmapFormulas → String
  | .calibrated => "calibrated"
  | .legacy => "legacy"

/-- The settings of the user for skew and broadcasts. -/
def decodeSettings : Decoder (Nat × Nat) := fun value => do
  let [skewFactor, threshold] ← Decode.fields ["skew_factor", "broadcast_threshold"] value | none
  return (← Decode.withDefault Decode.nat32 default.skewFactor skewFactor,
    ← Decode.withDefault Decode.nat64 default.broadcastThreshold threshold)

/-- The settings for hash joins over redistributed inputs. -/
def decodeTraces : Decoder (Bool × Bool) := fun value => do
  let [penalizes, discards] ←
    Decode.fields ["penalize_skewed_hash_join", "discard_redistribute_hash_join"] value | none
  return (← Decode.withDefault Decode.bool default.penalizesSkew penalizes,
    ← Decode.withDefault Decode.bool default.discardsRedistribution discards)

/-- The values of parameters. Of several for one the last counts. -/
def decodeParams : Decoder (List (Cost.Param × Float)) := fun value => do
  let entries ← Decode.entries Decode.float value
  let named ← entries.mapM fun (name, value) => do return (← Cost.Param.ofName? name, value)
  return Cost.Param.all.filterMap fun param =>
    (named.reverse.lookup param).map fun value => (param, value)

/-- A configuration. -/
def decode : Decoder Config := fun value => do
  let [segments, settings, hints, traces, formulas, params] ← Decode.fields
    ["segments", "hints", "plan_hints", "traces", "cost_model", "cost_params"] value | none
  let (skewFactor, broadcastThreshold) ←
    Decode.withDefault decodeSettings (default.skewFactor, default.broadcastThreshold) settings
  let (penalizesSkew, discardsRedistribution) ←
    Decode.withDefault decodeTraces (default.penalizesSkew, default.discardsRedistribution) traces
  return {
    segments := ← Decode.withDefault Decode.nat32 default.segments segments
    skewFactor, broadcastThreshold
    hints := ← Decode.withDefault Hint.Hints.decode default.hints hints
    penalizesSkew, discardsRedistribution
    bitmapFormulas := ← Decode.withDefault
      (Decode.oneOf formulasName [.calibrated, .legacy]) default.bitmapFormulas formulas
    params := ← Decode.withDefault decodeParams default.params params }

/-- The document of a configuration. -/
def encode (config : Config) : Value :=
  .ofMembers [
    ("segments", .whole config.segments),
    ("hints", .ofMembers [("skew_factor", .whole config.skewFactor),
      ("broadcast_threshold", .whole config.broadcastThreshold)]),
    ("plan_hints", config.hints.encode),
    ("traces", .ofMembers [("penalize_skewed_hash_join", .bool config.penalizesSkew),
      ("discard_redistribute_hash_join", .bool config.discardsRedistribution)]),
    ("cost_model", .text (formulasName config.bitmapFormulas)),
    ("cost_params", .ofMembers (config.params.map fun (param, value) =>
      (param.name, .ofFloat value)))]

/-- The largest skew factor that a user may set. -/
def maxSkewFactor : Nat := 100

/-- Check the number of segments. -/
def checkSegments (config : Config) : Except Error Unit :=
  if config.segments = 0 then .error (.config "Segment count must be greater than 0") else .ok ()

/-- Check the skew factor. -/
def checkSkewFactor (config : Config) : Except Error Unit :=
  if maxSkewFactor < config.skewFactor then
    .error (.config s!"Skew factor must be between 0 and {maxSkewFactor}")
  else .ok ()

/-- Check the hints: each has to say something. -/
def checkHints (config : Config) : Except Error Unit := do
  match config.hints.scans.find? fun hint => hint.rules.isEmpty with
  | some hint => throw (.config s!"Scan hint for {hint.relation} lists no scan types")
  | none => pure ()
  if config.hints.joins.any fun hint => hint.aliases.length < 2 then
    throw (.config "Join type hint must name at least two relations")

/-- Check a configuration. -/
def validate (config : Config) : Except Error Unit := do
  config.checkSegments
  config.checkSkewFactor
  config.checkHints
  (← Cost.Params.withOverrides config.params).validate

/-- What is reported for a document that is no configuration. -/
def malformed : Error := .config "JSON parse error: not a configuration"

/-- The configuration that the value of a document stands for, after it was checked. -/
def ofValue (value : Value) : Except Error Config :=
  match decode value with
  | none => .error malformed
  | some config => do
      config.validate
      return config

/-- Read a configuration from a document and check it. -/
def ofText (text : String) : Except Error Config :=
  match Json.parse text with
  | none => .error malformed
  | some value => ofValue value

/-- The document of a configuration, as it is saved. -/
def toText (config : Config) : String := config.encode.pretty

/-- The cost model of a configuration. -/
def model (config : Config) : Except Error Cost.Model := do
  let params ← Cost.Params.withOverrides config.params
  let model ← Cost.Model.new params (UInt32.ofNat config.segments)
  return { model with
    skewFactor := UInt32.ofNat config.skewFactor
    broadcastThreshold := UInt64.ofNat config.broadcastThreshold
    legacy := config.bitmapFormulas == .legacy
    penalizesSkew := config.penalizesSkew
    discardsRedistribution := config.discardsRedistribution }

end Config

end Warehouse
