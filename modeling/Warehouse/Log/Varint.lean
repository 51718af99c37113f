import Warehouse.Bytes
import Warehouse.Error

/-! # Numbers of variable length

A number up to 250 is one byte. A larger one is a marker byte that says how many
bytes follow, and those bytes. Readers also take a number that is longer than it
has to be, but not one longer than its type. -/

namespace Warehouse.Log

/-- Readers take bytes from the front of what is left. -/
abbrev Reader := StateT (List UInt8) (Except Failure)

namespace Reader

/-- Report bytes that are no record. -/
def refuse {α : Type} (reason : String) : Reader α :=
  fun _ => .error (Error.serialization reason)

/-- Take `count` bytes. -/
def take (count : Nat) : Reader (List UInt8) := fun bytes =>
  if bytes.length < count then .error (Error.serialization "unexpected end")
  else .ok (bytes.take count, bytes.drop count)

/-- Take a word of `count` bytes. -/
def word (count : Nat) : Reader Nat := ofLittleEndian <$> take count

end Reader

namespace Varint

/-- The widths in bytes that the markers 251, 252 and 253 announce. -/
inductive Width where
  | two
  | four
  | eight
  deriving DecidableEq, Repr

namespace Width

/-- The number of bytes after the marker. -/
def bytes : Width → Nat
  | two => 2
  | four => 4
  | eight => 8

/-- The marker byte. -/
def marker : Width → UInt8
  | two => 251
  | four => 252
  | eight => 253

/-- The width that a byte announces, if it is a marker. -/
def ofMarker (byte : UInt8) : Option Width :=
  if byte = 251 then some two
  else if byte = 252 then some four
  else if byte = 253 then some eight
  else none

theorem ofMarker_marker (width : Width) : ofMarker width.marker = some width := by
  cases width <;> rfl

end Width

/-- The least width that holds a number above 250. -/
def widthOf (value : Nat) : Width :=
  if value < UInt16.size then .two else if value < UInt32.size then .four else .eight

/-- The bytes of a number below `2 ^ 64`. -/
def encode (value : Nat) : List UInt8 :=
  if value ≤ 250 then [UInt8.ofNat value]
  else (widthOf value).marker :: littleEndian (widthOf value).bytes value

/-- Read a number of at most `limit` bytes. -/
def read (limit : Width) : Reader Nat := fun input =>
  match input with
  | [] => .error (Error.serialization "unexpected end")
  | byte :: rest =>
      if byte.toNat ≤ 250 then .ok (byte.toNat, rest)
      else
        match Width.ofMarker byte with
        | none => .error (Error.serialization "invalid integer marker")
        | some width =>
            if limit.bytes < width.bytes then .error (Error.serialization "integer too wide")
            else Reader.word width.bytes rest

end Varint

end Warehouse.Log
