/-! # The checksum of log frames

CRC-32 with the reflected polynomial of IEEE 802.3: the remainder starts with all
bits set, every byte is added to its low end and shifted out bit by bit, and the
result is inverted. -/

namespace Warehouse.Log.Crc32

/-- The reflected generator polynomial. -/
def polynomial : UInt32 := 0xEDB88320

/-- Shift one bit out of the remainder. -/
def shift (remainder : UInt32) : UInt32 :=
  if remainder &&& 1 = 1 then (remainder >>> 1) ^^^ polynomial else remainder >>> 1

/-- Shift `count` bits out of the remainder. -/
def shifts : Nat → UInt32 → UInt32
  | 0, remainder => remainder
  | count + 1, remainder => shifts count (shift remainder)

/-- Add one byte to the remainder. -/
def feed (remainder : UInt32) (byte : UInt8) : UInt32 :=
  shifts 8 (remainder ^^^ byte.toUInt32)

end Crc32

/-- The checksum of a run of bytes. -/
def crc32 (bytes : List UInt8) : UInt32 :=
  bytes.foldl Crc32.feed 0xFFFFFFFF ^^^ 0xFFFFFFFF

end Warehouse.Log
