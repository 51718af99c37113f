import Warehouse.Hex
import Warehouse.Json.Value

/-! # Writing JSON

Documents are written on one line, or indented with two spaces a level. Characters
beyond ASCII are written as they are. -/

namespace Warehouse.Json

namespace Print

/-- A character inside a string. -/
def escape (c : Char) : String :=
  match c with
  | '"' => "\\\""
  | '\\' => "\\\\"
  | '\x08' => "\\b"
  | '\x0c' => "\\f"
  | '\n' => "\\n"
  | '\r' => "\\r"
  | '\t' => "\\t"
  | c => if c.toNat < 0x20 then "\\u" ++ hexLower 4 c.toNat else String.singleton c

/-- A string in quotes. -/
def quoted (text : String) : String :=
  "\"" ++ text.foldl (fun done c => done ++ escape c) "" ++ "\""

/-- Doubles from `1e-5` up to below `1e16` are written without exponent. -/
def number : Decimal.Format := ⟨fun e => -5 ≤ e && e ≤ 15, true, true, .toEven⟩

/-- The number `digits * 10 ^ exponent`. -/
def decimal (negative : Bool) (digits : Nat) (exponent : Int) : String :=
  (if negative then "-" else "") ++
    number.layOut (Nat.toDigits 10 digits) exponent

/-- The start of a line at a level. -/
def newline (level : Nat) : String :=
  "\n" ++ String.ofList (List.replicate (2 * level) ' ')

/-- The text of a string value; one whose escapes form no text is written empty. -/
def string (text : Text) : String := quoted (text.getD "")

mutual

/-- A value on one line. -/
def compact : Value → String
  | .null => "null"
  | .bool value => if value then "true" else "false"
  | .whole value => toString value
  | .decimal negative digits exponent => decimal negative digits exponent
  | .string text => string text
  | .array items => "[" ++ compactItems items ++ "]"
  | .object members => "\x7b" ++ compactMembers members ++ "\x7d"

/-- Items on one line. -/
def compactItems : List Value → String
  | [] => ""
  | [item] => compact item
  | item :: rest => compact item ++ "," ++ compactItems rest

/-- Members on one line. -/
def compactMembers : List (Text × Value) → String
  | [] => ""
  | [(name, value)] => string name ++ ":" ++ compact value
  | (name, value) :: rest => string name ++ ":" ++ compact value ++ "," ++ compactMembers rest

end

mutual

/-- A value at a level of indentation. -/
def pretty (level : Nat) : Value → String
  | .null => "null"
  | .bool value => if value then "true" else "false"
  | .whole value => toString value
  | .decimal negative digits exponent => decimal negative digits exponent
  | .string text => string text
  | .array [] => "[]"
  | .array (item :: rest) =>
      "[" ++ prettyItems (level + 1) (item :: rest) ++ newline level ++ "]"
  | .object [] => "\x7b\x7d"
  | .object (member :: rest) =>
      "\x7b" ++ prettyMembers (level + 1) (member :: rest) ++ newline level ++ "\x7d"

/-- Items on lines of their own. -/
def prettyItems (level : Nat) : List Value → String
  | [] => ""
  | [item] => newline level ++ pretty level item
  | item :: rest => newline level ++ pretty level item ++ "," ++ prettyItems level rest

/-- Members on lines of their own. -/
def prettyMembers (level : Nat) : List (Text × Value) → String
  | [] => ""
  | [(name, value)] => newline level ++ string name ++ ": " ++ pretty level value
  | (name, value) :: rest =>
      newline level ++ string name ++ ": " ++ pretty level value ++ "," ++ prettyMembers level rest

end

end Print

/-- The text of a value on one line. -/
def Value.compact (value : Value) : String := Print.compact value

/-- The text of a value, indented with two spaces a level. -/
def Value.pretty (value : Value) : String := Print.pretty 0 value

end Warehouse.Json
