/-! # Hexadecimal text -/

namespace Warehouse

/-- The hexadecimal digits of `value` in lower case, filled up with zeros on the
left to at least `width` digits. -/
def hexLower (width value : Nat) : String :=
  let digits := Nat.toDigits 16 value
  String.ofList (List.replicate (width - digits.length) '0' ++ digits)

/-- As `hexLower`, in upper case. -/
def hexUpper (width value : Nat) : String :=
  (hexLower width value).toUpper

/-- The value of a hexadecimal digit. -/
def hexDigit? (c : Char) : Option Nat :=
  if '0' ≤ c ∧ c ≤ '9' then some (c.toNat - '0'.toNat)
  else if 'a' ≤ c ∧ c ≤ 'f' then some (c.toNat - 'a'.toNat + 10)
  else if 'A' ≤ c ∧ c ≤ 'F' then some (c.toNat - 'A'.toNat + 10)
  else none

/-- The text of bytes, two digits for each. -/
def hexOfBytes (bytes : List UInt8) : String :=
  String.join (bytes.map fun byte => hexLower 2 byte.toNat)

/-- The bytes that digits stand for, two for each, after those in `done`, which are in
reverse order. -/
def bytesOfDigits (done : List UInt8) : List Char → Option (List UInt8)
  | [] => some done.reverse
  | high :: low :: rest => do
      bytesOfDigits (UInt8.ofNat ((← hexDigit? high) * 16 + (← hexDigit? low)) :: done) rest
  | _ => none

/-- The bytes that a text stands for, two digits for each. -/
def bytesOfHex (text : String) : Option (List UInt8) := bytesOfDigits [] text.toList

end Warehouse
