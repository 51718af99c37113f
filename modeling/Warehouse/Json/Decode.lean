import Warehouse.Json.Number
import Warehouse.Json.Value

/-! # Reading values out of JSON

A decoder gives what a JSON value stands for, or nothing when it stands for nothing of
the wanted kind. A record is an object whose unknown members do not matter, or an array
of its fields in order. -/

namespace Warehouse.Json

/-- A reader of values. -/
abbrev Decoder (α : Type) := Value → Option α

namespace Decode

variable {α β : Type}

/-- A truth value. -/
def bool : Decoder Bool
  | .bool value => some value
  | _ => none

/-- A whole number below a limit. -/
def natBelow (limit : Nat) : Decoder Nat
  | .whole value => if 0 ≤ value ∧ value < limit then some value.toNat else none
  | _ => none

/-- A whole number of thirty-two bits. -/
def nat32 : Decoder Nat := natBelow UInt32.size

/-- A whole number of sixty-four bits. -/
def nat64 : Decoder Nat := natBelow UInt64.size

/-- The double for a number, unless it is too large for one. -/
def float : Decoder Float
  | .whole value =>
      let size := (UInt64.ofNat value.natAbs).toFloat
      some (if value < 0 then -size else size)
  | .decimal negative digits exponent => do
      let size ← Number.toFloat? digits exponent
      return if negative then -size else size
  | _ => none

/-- A string that is a text. -/
def text : Decoder String
  | .string text => text
  | _ => none

/-- An array whose items are all of a kind. -/
def list (item : Decoder α) : Decoder (List α)
  | .array items => items.mapM item
  | _ => none

/-- Something, or null for nothing. -/
def optional (decoder : Decoder α) : Decoder (Option α)
  | .null => some none
  | value => some <$> decoder value

/-- The entries of an object, whose names are all texts. -/
def entries (decoder : Decoder α) : Decoder (List (String × α))
  | .object members => members.mapM fun (name, value) => do return (← name, ← decoder value)
  | _ => none

/-- The only entry of an object. -/
def single : Value → Option (String × Value)
  | .object [(some name, value)] => some (name, value)
  | _ => none

/-- One of some names, alone or as the name of null. -/
def name : Decoder String
  | .string text => text
  | value =>
      match single value with
      | some (name, .null) => some name
      | _ => none

/-- One of the members of an enumeration, by its name. -/
def oneOf (nameOf : α → String) (all : List α) : Decoder α := fun value => do
  let wanted ← name value
  all.find? fun member => nameOf member == wanted

/-- The members of an object that bear one of the names, each at most once, in the order
of the names. -/
def fieldsOfMembers (members : List (Text × Value)) (names : List String) :
    Option (List (Option Value)) :=
  if members.any fun member => member.1.isNone then none
  else
    names.mapM fun name =>
      match members.filter fun member => member.1 == some name with
      | [] => some none
      | [(_, value)] => some (some value)
      | _ => none

/-- The fields of a record with the given names, in their order. The last ones may be
missing in an array, any in an object. -/
def fields (names : List String) : Value → Option (List (Option Value))
  | .object members => fieldsOfMembers members names
  | .array items =>
      if names.length < items.length then none
      else some (items.map some ++ List.replicate (names.length - items.length) none)
  | _ => none

/-- A field that has to be there. -/
def required (decoder : Decoder α) : Option Value → Option α
  | some value => decoder value
  | none => none

/-- A field that has a default. -/
def withDefault (decoder : Decoder α) (default : α) : Option Value → Option α
  | some value => decoder value
  | none => some default

/-- The member of an object, or a default when the object has no such member. -/
def member (name : String) (decoder : Decoder α) (default : α) : Decoder α := fun value =>
  withDefault decoder default (value.member? name)

end Decode

end Warehouse.Json
