import Warehouse.Decimal.Text
import Warehouse.Error

/-! # Amounts of cost

The cost of a plan is a double that is not negative. Amounts are only made from values
that have been checked to be so. -/

namespace Warehouse.Cost

/-- The larger of two doubles; one that is not a number does not count. -/
def larger (a b : Float) : Float :=
  if a.isNaN then b else if b.isNaN then a else if a < b then b else a

/-- The smaller of two doubles; one that is not a number does not count. -/
def smaller (a b : Float) : Float :=
  if a.isNaN then b else if b.isNaN then a else if b < a then b else a

/-- The cost of a plan. -/
structure Amount where
  value : Float
  deriving DecidableEq

namespace Amount

/-- No cost. -/
def zero : Amount := ⟨0.0⟩

/-- The amount with the given value, which must not be negative. -/
def ofFloat (value : Float) : Except Fault Amount :=
  if 0.0 ≤ value then .ok ⟨if value == 0.0 then 0.0 else value⟩ else .error .failedAssertion

/-- The amount of two together. -/
def add (a b : Amount) : Amount := ⟨a.value + b.value⟩

instance : Add Amount := ⟨add⟩

/-- An amount times a factor, which must not be negative. -/
def scale (amount : Amount) (factor : Float) : Except Fault Amount :=
  ofFloat (amount.value * factor)

/-- The larger amount; the first of two that do not compare. -/
def max (a b : Amount) : Amount := if a.value < b.value then b else a

/-- The amount of all together. -/
def sum (amounts : List Amount) : Amount := amounts.foldl add zero

/-- The largest amount. -/
def maximum (amounts : List Amount) : Amount := amounts.foldl max zero

/-- The text of an amount, with six decimal places. -/
def text (amount : Amount) : String := Decimal.fixed 6 amount.value

end Amount

end Warehouse.Cost
