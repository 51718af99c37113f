import Warehouse.Decimal.Text

/-! # JSON values

A value keeps what readers of documents distinguish: whole numbers that fit a word stand
apart from other numbers, members keep their order and may repeat a name, and a string
whose escapes form no text is kept as such, because it is an error only where the string
is used. -/

namespace Warehouse.Json

/-- A string, unless its escapes form no text. -/
abbrev Text := Option String

inductive Value where
  | null
  | bool (value : Bool)
  /-- A number without point and exponent, which fits a word of sixty-four bits. -/
  | whole (value : Int)
  /-- The number `digits * 10 ^ exponent`, with its sign. The digits fit a word. -/
  | decimal (negative : Bool) (digits : Nat) (exponent : Int)
  | string (text : Text)
  | array (items : List Value)
  | object (members : List (Text × Value))

instance : Inhabited Value := ⟨.null⟩

namespace Value

/-- Numbers below this fit a word. -/
def wordLimit : Nat := UInt64.size

/-- The string with the given text. -/
def text (value : String) : Value := .string (some value)

/-- The array of the given numbers. -/
def ofNats (numbers : List Nat) : Value :=
  .array (numbers.map fun number : Nat => .whole (number : Int))

/-- The object with the given members. -/
def ofMembers (members : List (String × Value)) : Value :=
  .object (members.map fun (name, value) => (some name, value))

/-- The number that is nearest to a double among those that read back as it. There
is no number for infinities. -/
def ofFloat (x : Float) : Value :=
  match Decimal.magnitude x with
  | .finite size =>
      let (digits, place) := size.shortest .toEven
      .decimal (Decimal.isSigned x) digits place
  | _ => .null

/-- The value of the member with the given name. Of members with the same name the
last counts. -/
def member? (name : String) : Value → Option Value
  | .object members => (members.reverse.find? fun entry => entry.1 == some name).map Prod.snd
  | _ => none

end Value

end Warehouse.Json
