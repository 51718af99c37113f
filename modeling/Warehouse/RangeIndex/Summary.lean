import Warehouse.Block
import Warehouse.Bytes

/-! # Summary tuples

A summary is stored as the first table block of its range followed by the bytes
that describe the range. -/

namespace Warehouse.RangeIndex

/-- The summary of one range of table blocks. -/
structure Summary where
  heapBlock : BlockNumber
  payload : List UInt8
  deriving DecidableEq, Repr

namespace Summary

/-- The bytes of the stored tuple. -/
def encode (summary : Summary) : List UInt8 :=
  littleEndian 4 summary.heapBlock.toNat ++ summary.payload

/-- The summary of a stored tuple, unless it is too short to name a block. -/
def decode (bytes : List UInt8) : Option Summary :=
  if bytes.length < 4 then none
  else some ⟨UInt32.ofNat (ofLittleEndian (bytes.take 4)), bytes.drop 4⟩

end Summary

end Warehouse.RangeIndex
