import Warehouse.Decimal.Dyadic

/-! # Doubles as decimal text

Two ways to write a double: with the fewest digits that read back as the same
double, laid out as a `Format` says, or with a fixed number of decimal places,
rounded from the exact value. -/

namespace Warehouse.Decimal

/-- How the shortest digits of a double are laid out. -/
structure Format where
  /-- Which powers of ten of the leading digit are written without exponent. -/
  positional : Int → Bool
  /-- Whole numbers written without exponent end in `.0`. -/
  wholePoint : Bool
  /-- A non-negative exponent is written with a plus sign. -/
  plusSign : Bool
  tie : Tie

/-- Every number is written out in full and whole numbers have no point. -/
def plain : Format := ⟨fun _ => true, false, false, .up⟩

/-- One digit before the point and always an exponent. -/
def scientific : Format := ⟨fun _ => false, false, false, .up⟩

/-- `count` zeros. -/
def zeros (count : Nat) : String :=
  String.ofList (List.replicate count '0')

/-- Lay out `digits * 10 ^ place` without an exponent. -/
def layPositional (wholePoint : Bool) (digits : List Char) (place : Int) : String :=
  let whole := digits.length + place
  if 0 ≤ place then
    String.ofList digits ++ zeros place.toNat ++ (if wholePoint then ".0" else "")
  else if 0 < whole then
    String.ofList (digits.take whole.toNat) ++ "." ++ String.ofList (digits.drop whole.toNat)
  else
    "0." ++ zeros (-whole).toNat ++ String.ofList digits

/-- Lay out `digits * 10 ^ place` with one digit before the point. -/
def layScientific (plusSign : Bool) (digits : List Char) (place : Int) : String :=
  let exponent := digits.length + place - 1
  let sign := if exponent < 0 then "-" else if plusSign then "+" else ""
  let fraction := String.ofList (digits.drop 1)
  String.ofList (digits.take 1) ++ (if fraction.isEmpty then "" else "." ++ fraction) ++
    "e" ++ sign ++ toString exponent.natAbs

/-- Lay out `digits * 10 ^ place`. -/
def Format.layOut (format : Format) (digits : List Char) (place : Int) : String :=
  if format.positional (digits.length + place - 1) then
    layPositional format.wholePoint digits place
  else
    layScientific format.plusSign digits place

/-- The text of a double's size. -/
def Format.size (format : Format) : Magnitude → String
  | .nan => "NaN"
  | .infinite => "inf"
  | .finite size =>
      let (count, place) := size.shortest format.tie
      format.layOut (Nat.toDigits 10 count) place

/-- Put the sign in front; a value that is not a number has none. -/
def signed (x : Float) (size : String) : String :=
  if isSigned x && !x.isNaN then "-" ++ size else size

/-- The text of `x` with the fewest digits that read back. -/
def Format.text (format : Format) (x : Float) : String :=
  signed x (format.size (magnitude x))

/-- Insert a point before the last `places` digits of `count`. -/
def withPlaces (places : Nat) (count : Nat) : String :=
  let digits := Nat.toDigits 10 count
  let padded := List.replicate (places + 1 - digits.length) '0' ++ digits
  let whole := padded.length - places
  String.ofList (padded.take whole) ++
    (if places = 0 then "" else "." ++ String.ofList (padded.drop whole))

/-- The exact value of `x` rounded to `places` decimal places; a value halfway
between two of them goes to the even one. -/
def fixed (places : Nat) (x : Float) : String :=
  signed x <|
    match magnitude x with
    | .nan => "NaN"
    | .infinite => "inf"
    | .finite size =>
        let (num, den) := size.scaled (-places)
        withPlaces places (roundDiv .toEven num den)

end Warehouse.Decimal
