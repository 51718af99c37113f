import Warehouse.Decimal.Text

/-! # Numbers of documents as doubles

A number of a document is a word of digits and a power of ten. It is read in the
arithmetic of doubles: the word is rounded, and the result multiplied with the power or
divided by it, so that a number with many digits may be read as a neighbour of the nearest
double. -/

namespace Warehouse.Json.Number

/-- The largest power of ten that is a double. -/
def maxPower : Nat := 308

/-- A power of ten. -/
def tenTo (power : Nat) : Float := Float.ofScientific 1 false power

/-- Multiply with a power of ten, unless the result is too large for a double. -/
def enlarge (x : Float) (places : Nat) : Option Float :=
  if places ≤ maxPower then
    let product := x * tenTo places
    if product.isFinite then some product else none
  else if x == 0.0 then some x
  else none

/-- Divide by a power of ten. -/
def shrink (x : Float) (places : Nat) : Float :=
  if places ≤ maxPower then x / tenTo places
  else if x == 0.0 then x
  else shrink (x / tenTo maxPower) (places - maxPower)
termination_by places
decreasing_by simp only [maxPower] at *; omega

/-- The double for the number `digits * 10 ^ exponent`, unless it is too large for one. -/
def toFloat? (digits : Nat) (exponent : Int) : Option Float :=
  let x := (UInt64.ofNat digits).toFloat
  if 0 ≤ exponent then enlarge x exponent.toNat else some (shrink x (-exponent).toNat)

end Warehouse.Json.Number
