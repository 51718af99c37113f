/-! # Doubles as exact numbers

A finite double is a natural number times a power of two. Everything that
writes a double as decimal text works on that exact value, never on rounded
intermediate results. -/

namespace Warehouse.Decimal

/-- The size of a finite double: `mantissa * 2 ^ exponent`. -/
structure Dyadic where
  mantissa : Nat
  exponent : Int
  /-- The next smaller double is half as far away as the next larger one.
  This holds for the powers of two above the smallest normal number. -/
  closeBelow : Bool
  deriving DecidableEq, Repr

/-- What the bits of a double stand for, apart from the sign. -/
inductive Magnitude where
  | finite (size : Dyadic)
  | infinite
  | nan
  deriving DecidableEq, Repr

/-- Whether the sign bit of `x` is set; `-0.0` is signed too. -/
def isSigned (x : Float) : Bool :=
  x.toBits >>> 63 == 1

/-- Take the exponent and fraction fields of `x` apart. -/
def magnitude (x : Float) : Magnitude :=
  let bits := x.toBits.toNat % (1 <<< 63)
  let field : Nat := bits >>> 52
  let fraction := bits % (1 <<< 52)
  if field = 2047 then
    if fraction = 0 then .infinite else .nan
  else if field = 0 then
    .finite ⟨fraction, -1074, false⟩
  else
    .finite ⟨fraction + (1 <<< 52), (field : Int) - 1075, fraction == 0 && field != 1⟩

/-- `base ^ power` as a numerator and a denominator. -/
def ratio (base : Nat) (power : Int) : Nat × Nat :=
  if 0 ≤ power then (base.pow power.toNat, 1) else (1, base.pow (-power).toNat)

/-- How a number that lies exactly between two candidates is rounded. -/
inductive Tie where
  | up
  | toEven
  deriving DecidableEq, Repr

/-- Round `num / den` to the nearest natural number. -/
def roundDiv (tie : Tie) (num den : Nat) : Nat :=
  let quotient := num / den
  let twice := 2 * (num % den)
  if twice < den then quotient
  else if den < twice then quotient + 1
  else
    match tie with
    | .up => quotient + 1
    | .toEven => if quotient % 2 = 0 then quotient else quotient + 1

namespace Dyadic

/-- The fraction `size / 10 ^ place`. -/
def scaled (size : Dyadic) (place : Int) : Nat × Nat :=
  let two := ratio 2 size.exponent
  let ten := ratio 10 (-place)
  (size.mantissa * two.1 * ten.1, two.2 * ten.2)

/-- Whether `count * 10 ^ place` reads back as this double: whether it lies
between the midpoints to the two neighbouring doubles. A midpoint itself reads
back as the double with the even mantissa. -/
def admits (size : Dyadic) (place : Int) (count : Nat) : Bool :=
  let two := ratio 2 (size.exponent - 2)
  let ten := ratio 10 (-place)
  let unit := two.1 * ten.1
  let grid := count * (two.2 * ten.2)
  let low := (4 * size.mantissa - (if size.closeBelow then 1 else 2)) * unit
  let high := (4 * size.mantissa + 2) * unit
  if size.mantissa % 2 = 0 then low ≤ grid && grid ≤ high else low < grid && grid < high

/-- The multiple of `10 ^ place` that reads back as this double and lies
nearest to it, if any multiple but zero reads back. Only the two multiples next
to the double can. -/
def onGrid (tie : Tie) (size : Dyadic) (place : Int) : Option Nat :=
  let (num, den) := size.scaled place
  let below := num / den
  let above := below + 1
  match below != 0 && size.admits place below, size.admits place above with
  | true, true => some (roundDiv tie num den)
  | true, false => some below
  | false, true => some above
  | false, false => none

/-- Try grids from coarse to fine. -/
def firstGrid (tie : Tie) (size : Dyadic) : Nat → Int → Nat × Int
  | 0, place => (roundDiv tie (size.scaled place).1 (size.scaled place).2, place)
  | rounds + 1, place =>
      match size.onGrid tie place with
      | some count => (count, place)
      | none => firstGrid tie size rounds (place - 1)

/-- Drop the zeros at the end of `count`, moving them into the power of ten. -/
def stripZeros : Nat → Nat → Int → Nat × Int
  | 0, count, place => (count, place)
  | rounds + 1, count, place =>
      if count % 10 = 0 then stripZeros rounds (count / 10) (place + 1) else (count, place)

/-- The fewest decimal digits that read back as this double, as a number
without a zero at its end and a power of ten; zero is `0 * 10 ^ 0`. The first
grid lies above the leading digit, and seventeen digits always suffice. -/
def shortest (tie : Tie) (size : Dyadic) : Nat × Int :=
  if size.mantissa = 0 then (0, 0)
  else
    let top := ((size.mantissa.log2 : Int) + 1 + size.exponent) * 30103 / 100000 + 1
    let (count, place) := size.firstGrid tie 20 top
    stripZeros 20 count place

end Dyadic

end Warehouse.Decimal
