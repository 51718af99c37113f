import Warehouse.Json.Value

/-! # Changing values

`dropRepeats` gives every object members of different names, and `mapScalars` changes the
values that are neither arrays nor objects. -/

namespace Warehouse.Json.Value

/-- Put a member in front of others unless one of them has its name. -/
def addMember (name : Text) (value : Value) (members : List (Text × Value)) : List (Text × Value) :=
  if members.any fun member => member.1 == name then members else (name, value) :: members

mutual

/-- Of the members of an object with one name, keep the last. -/
def dropRepeats : Value → Value
  | .array items => .array (dropRepeatsInItems items)
  | .object members => .object (dropRepeatsInMembers members)
  | value => value

/-- Do so in every item. -/
def dropRepeatsInItems : List Value → List Value
  | [] => []
  | item :: rest => dropRepeats item :: dropRepeatsInItems rest

/-- Do so among some members, and in each of them. -/
def dropRepeatsInMembers : List (Text × Value) → List (Text × Value)
  | [] => []
  | (name, value) :: rest => addMember name (dropRepeats value) (dropRepeatsInMembers rest)

end

mutual

/-- Change the values that are neither arrays nor objects. -/
def mapScalars (f : Value → Value) : Value → Value
  | .array items => .array (mapScalarsInItems f items)
  | .object members => .object (mapScalarsInMembers f members)
  | value => f value

/-- Change the values in every item. -/
def mapScalarsInItems (f : Value → Value) : List Value → List Value
  | [] => []
  | item :: rest => mapScalars f item :: mapScalarsInItems f rest

/-- Change the values in every member. -/
def mapScalarsInMembers (f : Value → Value) : List (Text × Value) → List (Text × Value)
  | [] => []
  | (name, value) :: rest => (name, mapScalars f value) :: mapScalarsInMembers f rest

end

end Warehouse.Json.Value
