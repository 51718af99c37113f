import Warehouse.Cost.Amount
import Warehouse.Plan.Statistics

/-! # Skew and spilling

What makes a hash join dearer than its row counts say: a hash table that does not fit
into memory, and inputs that are spread unevenly over the segments. Also the weight of
index columns that a condition does not use. -/

namespace Warehouse.Cost

open Plan

/-- Where the hash table of a hash join lives. -/
inductive SpillRegime where
  | inMemory
  | spilling
  deriving DecidableEq, Repr

/-- The hash table spills when its input is larger than the threshold. -/
def spillRegime (innerRows innerWidth threshold : Float) : SpillRegime :=
  if innerRows * innerWidth ≤ threshold then .inMemory else .spilling

/-- Multiply `result` by `base ^ exponent`, squaring the base for every bit of the
exponent, of which there are at most `bits`. -/
def powerLoop : (bits : Nat) → (result base : Float) → (exponent : Nat) → Float
  | 0, result, _, _ => result
  | bits + 1, result, base, exponent =>
      let result := if exponent % 2 = 1 then result * base else result
      if exponent / 2 = 0 then result else powerLoop bits result (base * base) (exponent / 2)

/-- A power with a whole exponent. -/
def power (base : Float) (exponent : Int) : Float :=
  let size := powerLoop 64 1.0 base exponent.natAbs
  if exponent < 0 then 1.0 / size else size

/-- The base of the scale that a user's skew factor counts on. -/
def skewFactorBase : Float := 1.0307

/-- By how much a user's skew factor multiplies a cost. The factor counts as a signed
word, which a factor of one hundred at most never notices. -/
def skewFactorMultiplier (factor : UInt32) : Except Fault Float :=
  let signed := factor.toInt32.toInt
  if signed = Int32.minValue.toInt then .error .overflow else .ok (power skewFactorBase (signed - 1))

/-- The number of distinct values of several columns together; zero when it is not
known for one of them. -/
def combinedDistinctValues (columns : List ColumnId) (stats : NodeStats) : Float :=
  (columns.map fun column => (stats.distinctValues.get? column).getD 0.0).foldl (· * ·) 1.0

/-- An input of a hash join that is redistributed by the hash of some columns. -/
structure RedistributedInput where
  columns : List ColumnId
  stats : NodeStats

/-- What bounds the skew ratio of a hash join. -/
structure SkewPolicy where
  segments : UInt32
  /-- Zero stands for none, and lets the upper limit apply. -/
  skewFactor : UInt32
  upperLimit : Float

namespace SkewPolicy

/-- The ratio after one more input. Fewer distinct values than segments leave segments
idle. -/
def raise (policy : SkewPolicy) (ratio : Float) (input : RedistributedInput) :
    Except Fault Float := do
  let segments := policy.segments.toNat.toFloat
  let values := combinedDistinctValues input.columns input.stats
  let ratio := if values < segments && 1.0 ≤ values then larger ratio (segments / values) else ratio
  if policy.skewFactor = 0 then return smaller ratio policy.upperLimit
  else
    let multiplier ← skewFactorMultiplier policy.skewFactor
    return larger ratio (multiplier * input.stats.histogramSkew)

/-- By how much skew multiplies the local cost of a hash join; never below one. -/
def ratio (policy : SkewPolicy) (inputs : List RedistributedInput) : Except Fault Float :=
  (fun ratio => larger ratio 1.0) <$> inputs.foldlM policy.raise 1.0

end SkewPolicy

/-- The weight of the key columns of an index that a condition does not use. The earlier
a column stands in the key, the more it weighs. -/
def unusedIndexWeight (indexColumns usedColumns : List ColumnId) (table : TableStats) : Float :=
  if indexColumns.isEmpty || usedColumns.isEmpty || table.rows ≤ 0.0 then 0.0
  else
    let unused := indexColumns.zipIdx.filter fun (column, _) => !usedColumns.contains column
    let weights := unused.map fun (column, position) =>
      (indexColumns.length - position).toFloat *
        ((table.distinctValues.get? column).getD 0.0 / table.rows)
    weights.foldl (· + ·) (-0.0)

end Warehouse.Cost
