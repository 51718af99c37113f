import Warehouse.Hex
import Warehouse.Json.Value

/-! # Reading JSON

The text of a document is read as it stands in the standard: no comments, no trailing
commas, no leading zeros, and nothing but whitespace around the value. Every function
takes the characters that are left and gives back those that it did not use. -/

namespace Warehouse.Json

/-- A function that reads something at the front of the characters that are left. -/
abbrev Scan (α : Type) := List Char → Option (α × List Char)

namespace Scan

/-- Whitespace between the parts of a document. -/
def isBlank (c : Char) : Bool := c == ' ' || c == '\t' || c == '\n' || c == '\r'

/-- What follows the whitespace. -/
def skipBlanks (input : List Char) : List Char := input.dropWhile isBlank

/-- What follows the given characters. -/
def literal : List Char → List Char → Option (List Char)
  | [], input => some input
  | _ :: _, [] => none
  | c :: rest, d :: input => if c = d then literal rest input else none

/-- The number that decimal digits stand for, starting with `value`. -/
def natOf (value : Nat) : List Char → Nat
  | [] => value
  | c :: rest => natOf (value * 10 + (c.toNat - '0'.toNat)) rest

/-- The decimal digits at the front. -/
def digits (input : List Char) : List Char × List Char :=
  (input.takeWhile Char.isDigit, input.dropWhile Char.isDigit)

/-- The digits before the point: a single zero, or digits that do not start with one. -/
def wholePart (input : List Char) : Option (List Char × List Char) :=
  match input with
  | '0' :: rest => some (['0'], rest)
  | _ =>
      match digits input with
      | ([], _) => none
      | found => some found

/-- The digits after the point, if there is a point. -/
def fraction : List Char → Option (Option (List Char) × List Char)
  | '.' :: rest =>
      match digits rest with
      | ([], _) => none
      | (found, rest) => some (some found, rest)
  | input => some (none, input)

/-- The digits of an exponent after its sign. -/
def exponentDigits (negative : Bool) (input : List Char) : Option (Option Int × List Char) :=
  match digits input with
  | ([], _) => none
  | (found, rest) =>
      let size : Int := natOf 0 found
      some (some (if negative then -size else size), rest)

/-- The exponent, if there is one. -/
def exponent : List Char → Option (Option Int × List Char)
  | c :: rest =>
      if c = 'e' ∨ c = 'E' then
        match rest with
        | '+' :: rest => exponentDigits false rest
        | '-' :: rest => exponentDigits true rest
        | _ => exponentDigits false rest
      else some (none, c :: rest)
  | [] => some (none, [])

/-- Append digits to a number as long as it stays below `2 ^ 64`. The rest is what was
left out. -/
def appendDigits (value : Nat) : List Char → Nat × List Char
  | [] => (value, [])
  | c :: rest =>
      let longer := value * 10 + (c.toNat - '0'.toNat)
      if longer < Value.wordLimit then appendDigits longer rest else (value, c :: rest)

/-- A number without point and exponent; `left` are digits for which there was no room. A
negative zero is no whole number. -/
def wholeNumber (negative : Bool) (size : Nat) (left : List Char) : Value :=
  if left.isEmpty && (if negative then 0 < size && size ≤ Value.wordLimit / 2 else true) then
    .whole (if negative then -(size : Int) else size)
  else .decimal negative size left.length

/-- A number without its sign. Digits for which there is no room only count for the power
of ten. -/
def unsigned (negative : Bool) (input : List Char) : Option (Value × List Char) := do
  let (whole, rest) ← wholePart input
  let (decimals, rest) ← fraction rest
  let (power, rest) ← exponent rest
  let (size, left) := appendDigits 0 whole
  let value :=
    match decimals, power with
    | none, none => wholeNumber negative size left
    | _, _ =>
        let decimals := decimals.getD []
        let (size, unused) := appendDigits size decimals
        .decimal negative size
          (power.getD 0 + left.length - (decimals.length - unused.length : Nat))
  return (value, rest)

/-- A number. -/
def number : Scan Value
  | '-' :: rest => unsigned true rest
  | input => unsigned false input

/-- A unit of sixteen bits from four hexadecimal digits. -/
def unit : List Char → Option (Nat × List Char)
  | a :: b :: c :: d :: rest => do
      let high := (← hexDigit? a) * 16 + (← hexDigit? b)
      return (high * 256 + (← hexDigit? c) * 16 + (← hexDigit? d), rest)
  | _ => none

/-- The character of an escape of two characters. -/
def shortEscape : Char → Option Char
  | '"' => some '"'
  | '\\' => some '\\'
  | '/' => some '/'
  | 'b' => some '\x08'
  | 'f' => some '\x0c'
  | 'n' => some '\n'
  | 'r' => some '\r'
  | 't' => some '\t'
  | _ => none

/-- A part of a string: a character, or an escaped unit that may be half of one. -/
inductive Piece where
  | char (c : Char)
  | unit (value : Nat)

/-- The parts of a string up to its closing quote, at most `limit` of them. Those read
so far stand in reverse in `found`. -/
def pieces (found : List Piece) : (limit : Nat) → Scan (List Piece)
  | 0, _ => none
  | _, [] => none
  | limit + 1, c :: rest =>
      if c = '"' then some (found.reverse, rest)
      else if c = '\\' then
        match rest with
        | 'u' :: rest =>
            match unit rest with
            | some (value, rest) => pieces (.unit value :: found) limit rest
            | none => none
        | e :: rest =>
            match shortEscape e with
            | some c => pieces (.char c :: found) limit rest
            | none => none
        | [] => none
      else if c.toNat < 0x20 then none
      else pieces (.char c :: found) limit rest

/-- The text that the parts of a string form: two units, a high and a low one, make up
a character beyond sixteen bits, and stand for nothing on their own. The text so far
stands in reverse in `found`. -/
def assemble (found : List Char) : List Piece → Option (List Char)
  | [] => some found.reverse
  | .char c :: rest => assemble (c :: found) rest
  | .unit high :: rest =>
      if 0xDC00 ≤ high ∧ high ≤ 0xDFFF then none
      else if 0xD800 ≤ high ∧ high ≤ 0xDBFF then
        match rest with
        | .unit low :: rest =>
            if 0xDC00 ≤ low ∧ low ≤ 0xDFFF then
              assemble (Char.ofNat (0x10000 + (high - 0xD800) * 0x400 + (low - 0xDC00)) :: found) rest
            else none
        | _ => none
      else assemble (Char.ofNat high :: found) rest

/-- The rest of a string after its opening quote. -/
def stringBody (limit : Nat) (input : List Char) : Option (Text × List Char) := do
  let (parts, rest) ← pieces [] limit input
  return (String.ofList <$> assemble [] parts, rest)

mutual

/-- A value after whitespace, with at most `limit` characters and levels. -/
def value : (limit : Nat) → Scan Value
  | 0, _ => none
  | limit + 1, input =>
      match skipBlanks input with
      | [] => none
      | '"' :: rest => do
          let (text, rest) ← stringBody limit rest
          return (.string text, rest)
      | '[' :: rest =>
          match skipBlanks rest with
          | ']' :: rest => some (.array [], rest)
          | rest => do
              let (items, rest) ← items limit rest
              return (.array items, rest)
      | '\x7b' :: rest =>
          match skipBlanks rest with
          | '\x7d' :: rest => some (.object [], rest)
          | rest => do
              let (members, rest) ← members limit rest
              return (.object members, rest)
      | 'n' :: rest => (literal ['u', 'l', 'l'] rest).map fun rest => (.null, rest)
      | 't' :: rest => (literal ['r', 'u', 'e'] rest).map fun rest => (.bool true, rest)
      | 'f' :: rest => (literal ['a', 'l', 's', 'e'] rest).map fun rest => (.bool false, rest)
      | rest => number rest

/-- The items of an array up to its closing bracket; there is at least one. -/
def items : (limit : Nat) → Scan (List Value)
  | 0, _ => none
  | limit + 1, input => do
      let (first, rest) ← value limit input
      match skipBlanks rest with
      | ',' :: rest =>
          let (later, rest) ← items limit rest
          return (first :: later, rest)
      | ']' :: rest => return ([first], rest)
      | _ => none

/-- The members of an object up to its closing brace; there is at least one. -/
def members : (limit : Nat) → Scan (List (Text × Value))
  | 0, _ => none
  | limit + 1, input =>
      match skipBlanks input with
      | '"' :: rest => do
          let (name, rest) ← stringBody limit rest
          match skipBlanks rest with
          | ':' :: rest =>
              let (found, rest) ← value limit rest
              match skipBlanks rest with
              | ',' :: rest =>
                  let (later, rest) ← members limit rest
                  return ((name, found) :: later, rest)
              | '\x7d' :: rest => return ([(name, found)], rest)
              | _ => none
          | _ => none
      | _ => none

end

end Scan

/-- The value of a document, if its text is well formed. -/
def parse (text : String) : Option Value := do
  let input := text.toList
  let (found, rest) ← Scan.value (2 * input.length + 2) input
  if (Scan.skipBlanks rest).isEmpty then return found else none

end Warehouse.Json
