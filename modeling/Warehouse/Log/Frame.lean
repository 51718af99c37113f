import Warehouse.Log.Body
import Warehouse.Log.Crc32

/-! # Frames and logs

A log is a sequence of frames. A frame is the length of its body, the body, and the
checksum of the body. A log may end in the middle of a frame, which was being
written when the system stopped; such a torn end is dropped. -/

namespace Warehouse.Log

/-- Bytes of a frame next to its body. -/
def frameOverhead : Nat := 8

/-- The longest body that is read. -/
def maxBodyLength : Nat := 1048576

/-- The frame of a record. -/
def encodeFrame (record : Record) : List UInt8 :=
  let body := record.encode
  littleEndian 4 body.length ++ body ++ littleEndian 4 (crc32 body).toNat

/-- What a complete frame at the front of a log holds. -/
structure Decoded where
  record : Record
  /-- Bytes of the whole frame. -/
  size : Nat
  /-- What follows the frame. -/
  rest : List UInt8
  deriving DecidableEq, Repr

/-- Read the frame at the front of a log. There is nothing to read when the log ends
or has a torn end there. -/
def decodeFrame (bytes : List UInt8) : Except Failure (Option Decoded) := do
  if (bytes.drop (frameOverhead - 1)).isEmpty then return none
  let length := ofLittleEndian (bytes.take 4)
  if length = 0 ∨ maxBodyLength < length then
    throw (Failure.error (.log s!"invalid frame length {length}"))
  if (bytes.drop (length + frameOverhead - 1)).isEmpty then return none
  let body := (bytes.drop 4).take length
  let rest := bytes.drop (4 + length)
  let expected := ofLittleEndian (rest.take 4)
  let found := (crc32 body).toNat
  if expected ≠ found then
    throw (Failure.error (.log
      s!"checksum mismatch: expected {hexLower 8 expected}, found {hexLower 8 found}"))
  let (record, _) ← Record.read body
  return some ⟨record, length + frameOverhead, rest.drop 4⟩

/-- Read at most `frames` frames. Each record stands with the position where its
frame ends, counted from `start` at the front of `bytes`. -/
def decodeFrames (start : Nat) (bytes : List UInt8) : (frames : Nat) →
    Except Failure (List (Lsn × Record))
  | 0 => return []
  | frames + 1 => do
      match ← decodeFrame bytes with
      | none => return []
      | some decoded =>
          let stop := start + decoded.size
          let later ← decodeFrames stop decoded.rest frames
          return (UInt64.ofNat stop, decoded.record) :: later

/-- All records of a log, each with the position where its frame ends. A log has no
more frames than bytes. -/
def decodeLog (bytes : List UInt8) : Except Failure (List (Lsn × Record)) :=
  decodeFrames 0 bytes bytes.length

end Warehouse.Log
