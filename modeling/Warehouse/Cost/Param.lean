import Warehouse.Error

/-! # Parameters of the cost model

Every parameter has a value and bounds within which calibration may move it. A cost
model is built only on a table whose values are all positive and finite. -/

namespace Warehouse.Cost

/-- What can be tuned: the price of a unit of work, or a limit. -/
inductive Param where
  | seqIoBandwidth
  | randomIoBandwidth
  | tupProcBandwidth
  | outputBandwidth
  | initScanFactor
  | tableScanCostUnit
  | initIndexScanFactor
  | indexBlockCostUnit
  | indexFilterCostUnit
  | indexScanTupCostUnit
  | indexScanTupRandomFactor
  | indexOnlyScanTupCostUnit
  | indexCostConversionFactor
  | filterColCostUnit
  | outputTupCostUnit
  | gatherSendCostUnit
  | gatherRecvCostUnit
  | redistributeSendCostUnit
  | redistributeRecvCostUnit
  | broadcastSendCostUnit
  | broadcastRecvCostUnit
  | noOpCostUnit
  | joinFeedingTupColumnCostUnit
  | joinFeedingTupWidthCostUnit
  | joinOutputTupCostUnit
  | hjSpillingMemThreshold
  | hjHashTableInitCostFactor
  | hjHashTableColumnCostUnit
  | hjHashTableWidthCostUnit
  | hjHashingTupWidthCostUnit
  | hjFeedingTupColumnSpillingCostUnit
  | hjFeedingTupWidthSpillingCostUnit
  | hjHashingTupWidthSpillingCostUnit
  | hashAggInputTupColumnCostUnit
  | hashAggInputTupWidthCostUnit
  | hashAggOutputTupWidthCostUnit
  | sortTupWidthCostUnit
  | tupDefaultProcCostUnit
  | materializeCostUnit
  | tupUpdateBandwidth
  | networkBandwidth
  | nljFactor
  | hjFactor
  | hashFactor
  | defaultCost
  | indexJoinAllowedRiskThreshold
  | bitmapIoCostLargeNdv
  | bitmapIoCostSmallNdv
  | bitmapPageCostLargeNdv
  | bitmapPageCostSmallNdv
  | bitmapPageCost
  | bitmapNdvThreshold
  | bitmapScanRebindCost
  | penalizeHjSkewUpperLimit
  | scalarFuncCost
  deriving DecidableEq, Repr

namespace Param

/-- All parameters in order. -/
def all : List Param :=
  [.seqIoBandwidth, .randomIoBandwidth, .tupProcBandwidth, .outputBandwidth, .initScanFactor,
    .tableScanCostUnit, .initIndexScanFactor, .indexBlockCostUnit, .indexFilterCostUnit,
    .indexScanTupCostUnit, .indexScanTupRandomFactor, .indexOnlyScanTupCostUnit,
    .indexCostConversionFactor, .filterColCostUnit, .outputTupCostUnit, .gatherSendCostUnit,
    .gatherRecvCostUnit, .redistributeSendCostUnit, .redistributeRecvCostUnit,
    .broadcastSendCostUnit, .broadcastRecvCostUnit, .noOpCostUnit, .joinFeedingTupColumnCostUnit,
    .joinFeedingTupWidthCostUnit, .joinOutputTupCostUnit, .hjSpillingMemThreshold,
    .hjHashTableInitCostFactor, .hjHashTableColumnCostUnit, .hjHashTableWidthCostUnit,
    .hjHashingTupWidthCostUnit, .hjFeedingTupColumnSpillingCostUnit,
    .hjFeedingTupWidthSpillingCostUnit, .hjHashingTupWidthSpillingCostUnit,
    .hashAggInputTupColumnCostUnit, .hashAggInputTupWidthCostUnit,
    .hashAggOutputTupWidthCostUnit, .sortTupWidthCostUnit, .tupDefaultProcCostUnit,
    .materializeCostUnit, .tupUpdateBandwidth, .networkBandwidth, .nljFactor, .hjFactor,
    .hashFactor, .defaultCost, .indexJoinAllowedRiskThreshold, .bitmapIoCostLargeNdv,
    .bitmapIoCostSmallNdv, .bitmapPageCostLargeNdv, .bitmapPageCostSmallNdv, .bitmapPageCost,
    .bitmapNdvThreshold, .bitmapScanRebindCost, .penalizeHjSkewUpperLimit, .scalarFuncCost]

/-- The name by which users refer to a parameter. -/
def name : Param → String
  | .seqIoBandwidth => "SeqIoBandwidth"
  | .randomIoBandwidth => "RandomIoBandwidth"
  | .tupProcBandwidth => "TupProcBandwidth"
  | .outputBandwidth => "OutputBandwidth"
  | .initScanFactor => "InitScanFactor"
  | .tableScanCostUnit => "TableScanCostUnit"
  | .initIndexScanFactor => "InitIndexScanFactor"
  | .indexBlockCostUnit => "IndexBlockCostUnit"
  | .indexFilterCostUnit => "IndexFilterCostUnit"
  | .indexScanTupCostUnit => "IndexScanTupCostUnit"
  | .indexScanTupRandomFactor => "IndexScanTupRandomFactor"
  | .indexOnlyScanTupCostUnit => "IndexOnlyScanTupCostUnit"
  | .indexCostConversionFactor => "IndexCostConversionFactor"
  | .filterColCostUnit => "FilterColCostUnit"
  | .outputTupCostUnit => "OutputTupCostUnit"
  | .gatherSendCostUnit => "GatherSendCostUnit"
  | .gatherRecvCostUnit => "GatherRecvCostUnit"
  | .redistributeSendCostUnit => "RedistributeSendCostUnit"
  | .redistributeRecvCostUnit => "RedistributeRecvCostUnit"
  | .broadcastSendCostUnit => "BroadcastSendCostUnit"
  | .broadcastRecvCostUnit => "BroadcastRecvCostUnit"
  | .noOpCostUnit => "NoOpCostUnit"
  | .joinFeedingTupColumnCostUnit => "JoinFeedingTupColumnCostUnit"
  | .joinFeedingTupWidthCostUnit => "JoinFeedingTupWidthCostUnit"
  | .joinOutputTupCostUnit => "JoinOutputTupCostUnit"
  | .hjSpillingMemThreshold => "HjSpillingMemThreshold"
  | .hjHashTableInitCostFactor => "HjHashTableInitCostFactor"
  | .hjHashTableColumnCostUnit => "HjHashTableColumnCostUnit"
  | .hjHashTableWidthCostUnit => "HjHashTableWidthCostUnit"
  | .hjHashingTupWidthCostUnit => "HjHashingTupWidthCostUnit"
  | .hjFeedingTupColumnSpillingCostUnit => "HjFeedingTupColumnSpillingCostUnit"
  | .hjFeedingTupWidthSpillingCostUnit => "HjFeedingTupWidthSpillingCostUnit"
  | .hjHashingTupWidthSpillingCostUnit => "HjHashingTupWidthSpillingCostUnit"
  | .hashAggInputTupColumnCostUnit => "HashAggInputTupColumnCostUnit"
  | .hashAggInputTupWidthCostUnit => "HashAggInputTupWidthCostUnit"
  | .hashAggOutputTupWidthCostUnit => "HashAggOutputTupWidthCostUnit"
  | .sortTupWidthCostUnit => "SortTupWidthCostUnit"
  | .tupDefaultProcCostUnit => "TupDefaultProcCostUnit"
  | .materializeCostUnit => "MaterializeCostUnit"
  | .tupUpdateBandwidth => "TupUpdateBandwidth"
  | .networkBandwidth => "NetworkBandwidth"
  | .nljFactor => "NljFactor"
  | .hjFactor => "HjFactor"
  | .hashFactor => "HashFactor"
  | .defaultCost => "DefaultCost"
  | .indexJoinAllowedRiskThreshold => "IndexJoinAllowedRiskThreshold"
  | .bitmapIoCostLargeNdv => "BitmapIoCostLargeNdv"
  | .bitmapIoCostSmallNdv => "BitmapIoCostSmallNdv"
  | .bitmapPageCostLargeNdv => "BitmapPageCostLargeNdv"
  | .bitmapPageCostSmallNdv => "BitmapPageCostSmallNdv"
  | .bitmapPageCost => "BitmapPageCost"
  | .bitmapNdvThreshold => "BitmapNdvThreshold"
  | .bitmapScanRebindCost => "BitmapScanRebindCost"
  | .penalizeHjSkewUpperLimit => "PenalizeHjSkewUpperLimit"
  | .scalarFuncCost => "ScalarFuncCost"

/-- The parameter with the given name. -/
def ofName? (text : String) : Option Param := all.find? fun param => param.name == text

/-- The calibrated value. -/
def default : Param → Float
  | .seqIoBandwidth => 1024.0
  | .randomIoBandwidth => 30.0
  | .tupProcBandwidth => 512.0
  | .outputBandwidth => 256.0
  | .initScanFactor => 431.0
  | .tableScanCostUnit => 5.50e-7
  | .initIndexScanFactor => 142.0
  | .indexBlockCostUnit => 1.27e-6
  | .indexFilterCostUnit => 1.65e-4
  | .indexScanTupCostUnit => 3.66e-6
  | .indexScanTupRandomFactor => 6.0
  | .indexOnlyScanTupCostUnit => 1.0e-6
  | .indexCostConversionFactor => 1.0e-4
  | .filterColCostUnit => 3.29e-5
  | .outputTupCostUnit => 1.86e-6
  | .gatherSendCostUnit => 4.58e-6
  | .gatherRecvCostUnit => 2.20e-6
  | .redistributeSendCostUnit => 2.33e-6
  | .redistributeRecvCostUnit => 8.0e-7
  | .broadcastSendCostUnit => 4.965e-5
  | .broadcastRecvCostUnit => 1.35e-6
  | .noOpCostUnit => 1.0e-10
  | .joinFeedingTupColumnCostUnit => 8.69e-5
  | .joinFeedingTupWidthCostUnit => 6.09e-7
  | .joinOutputTupCostUnit => 3.50e-6
  | .hjSpillingMemThreshold => 52428800.0
  | .hjHashTableInitCostFactor => 500.0
  | .hjHashTableColumnCostUnit => 5.0e-5
  | .hjHashTableWidthCostUnit => 3.0e-6
  | .hjHashingTupWidthCostUnit => 1.97e-8
  | .hjFeedingTupColumnSpillingCostUnit => 1.97e-4
  | .hjFeedingTupWidthSpillingCostUnit => 3.0e-6
  | .hjHashingTupWidthSpillingCostUnit => 2.30e-5
  | .hashAggInputTupColumnCostUnit => 1.20e-4
  | .hashAggInputTupWidthCostUnit => 1.12e-7
  | .hashAggOutputTupWidthCostUnit => 5.61e-7
  | .sortTupWidthCostUnit => 5.67e-6
  | .tupDefaultProcCostUnit => 1.0e-6
  | .materializeCostUnit => 4.68e-6
  | .tupUpdateBandwidth => 256.0
  | .networkBandwidth => 1024.0
  | .nljFactor => 1.0
  | .hjFactor => 1.0
  | .hashFactor => 2.0
  | .defaultCost => 100.0
  | .indexJoinAllowedRiskThreshold => 3.0
  | .bitmapIoCostLargeNdv => 0.0082
  | .bitmapIoCostSmallNdv => 0.2138
  | .bitmapPageCostLargeNdv => 83.1651
  | .bitmapPageCostSmallNdv => 204.3810
  | .bitmapPageCost => 10.0
  | .bitmapNdvThreshold => 200.0
  | .bitmapScanRebindCost => 0.06
  | .penalizeHjSkewUpperLimit => 10.0
  | .scalarFuncCost => 1.0e-4

/-- The smallest value that a cost model accepts. A limit on skew must not make a ratio
less than one, and nested loops must not become cheaper than index nested loops. -/
def minimum : Param → Float
  | .penalizeHjSkewUpperLimit => 1.0
  | .nljFactor => 1.0
  | _ => 0.0

end Param

/-- The value of a parameter with the bounds for calibration. Two of them are the same when
they agree as numbers, so that one with a bound that is not a number is not even the same as
itself. -/
structure ParamValue where
  value : Float
  lower : Option Float
  upper : Option Float
  deriving BEq

/-- Whether a value keeps to the bounds. -/
def ParamValue.admits (slot : ParamValue) (value : Float) : Bool :=
  slot.lower.all (fun lower => lower ≤ value) && slot.upper.all (fun upper => value ≤ upper)

/-- A value for every parameter. -/
structure Params where
  slot : Param → ParamValue

namespace Params

/-- Whether two tables agree on every parameter, in its value and its bounds. -/
def same (params other : Params) : Bool :=
  Param.all.all fun param => params.slot param == other.slot param

instance : BEq Params := ⟨same⟩

/-- The calibrated values without bounds. -/
def default : Params := ⟨fun param => ⟨param.default, none, none⟩⟩

/-- The value of a parameter. -/
def get (params : Params) (param : Param) : Float := (params.slot param).value

/-- Replace what is stored for one parameter. -/
def update (params : Params) (param : Param) (slot : ParamValue) : Params :=
  ⟨fun other => if other = param then slot else params.slot other⟩

@[simp]
theorem slot_update (params : Params) (param other : Param) (slot : ParamValue) :
    (params.update param slot).slot other = if other = param then slot else params.slot other :=
  rfl

/-- Bounds are shown in messages with a point, and with an exponent from `1e16` on and
below `1e-4`. -/
def boundFormat : Decimal.Format := ⟨fun e => -4 ≤ e && e ≤ 15, true, false, .up⟩

/-- The text of a bound in messages. -/
def boundText : Option Float → String
  | none => "None"
  | some bound => s!"Some({boundFormat.text bound})"

/-- Change the value of a parameter. It has to be finite and within the bounds. -/
def set (params : Params) (param : Param) (value : Float) : Except Error Params :=
  let slot := params.slot param
  if value.isFinite && slot.admits value then .ok (params.update param { slot with value })
  else
    .error (.config (String.join ["value ", Decimal.plain.text value, " for ", param.name,
      " is outside [", boundText slot.lower, ", ", boundText slot.upper, "]"]))

/-- Change the bounds of a parameter, unless nothing lies between them. -/
def setBounds (params : Params) (param : Param) (lower upper : Option Float) :
    Except Error Params :=
  match lower, upper with
  | some low, some high =>
      if high < low then
        .error (.config (String.join ["empty bounds [", Decimal.plain.text low, ", ",
          Decimal.plain.text high, "] for ", param.name]))
      else .ok (params.update param { params.slot param with lower, upper })
  | _, _ => .ok (params.update param { params.slot param with lower, upper })

/-- Change the values of several parameters one after the other. -/
def setAll (params : Params) : List (Param × Float) → Except Error Params
  | [] => .ok params
  | (param, value) :: rest => do (← params.set param value).setAll rest

/-- The value of every parameter named in the list, and the calibrated value of the
others. The parameters are set in their order, and of several values for one the last
counts. -/
def withOverrides (overrides : List (Param × Float)) : Except Error Params :=
  default.setAll <| Param.all.filterMap fun param =>
    (overrides.reverse.lookup param).map fun value => (param, value)

/-- Whether a cost model accepts the value of a parameter. -/
def accepts (param : Param) (value : Float) : Bool :=
  value.isFinite && 0.0 < value && param.minimum ≤ value

/-- Check that a cost model accepts all values, and report the first that it does
not. -/
def validate (params : Params) : Except Error Unit :=
  match Param.all.find? fun param => !accepts param (params.get param) with
  | none => .ok ()
  | some param => .error (.invalidParameter param.name (params.get param))

end Params

end Warehouse.Cost
