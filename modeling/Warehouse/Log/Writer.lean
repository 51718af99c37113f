import Warehouse.Log.Frame

/-! # Writing a log

A log is kept in memory or in a file. The position after a frame is the log
position of its record. Several writers may hold the same file: one that created it
writes at its own position, one that opened it later writes at the end. -/

namespace Warehouse.Log

/-- Where the records of a relation go. -/
inductive Writer where
  | memory (image : ByteArray)
  /-- A log file, the position that the next record counts from, and whether
  records go to the end of the file instead of that position. -/
  | file (position : Nat) (appends : Bool)

/-- Add bytes at the end. -/
def pushAll (image : ByteArray) (bytes : List UInt8) : ByteArray :=
  bytes.foldl ByteArray.push image

/-- Put one byte at a position that is not beyond the end. -/
def putByte (file : ByteArray) (pos : Nat) (byte : UInt8) : ByteArray :=
  if h : pos < file.size then file.set pos byte h else file.push byte

/-- Put bytes one after the other. -/
def putBytes (file : ByteArray) (pos : Nat) : List UInt8 → ByteArray
  | [] => file
  | byte :: rest => putBytes (putByte file pos byte) (pos + 1) rest

/-- Write bytes at a position of a file; a gap before it is filled with zeros. -/
def writeAt (file : ByteArray) (pos : Nat) (bytes : List UInt8) : ByteArray :=
  putBytes (pushAll file (List.replicate (pos - file.size) 0)) pos bytes

/-- Write the frame of a record. The results are its log position, the writer, and
the log file. -/
def Writer.append (writer : Writer) (file : ByteArray) (record : Record) :
    Lsn × Writer × ByteArray :=
  let frame := encodeFrame record
  match writer with
  | .memory image =>
      let image := pushAll image frame
      (UInt64.ofNat image.size, .memory image, file)
  | .file position appends =>
      let stop := position + frame.length
      let file := writeAt file (if appends then file.size else position) frame
      (UInt64.ofNat stop, .file stop appends, file)

/-- The bytes of the log that a writer adds to. -/
def Writer.contents (writer : Writer) (file : ByteArray) : List UInt8 :=
  match writer with
  | .memory image => image.data.toList
  | .file .. => file.data.toList

end Warehouse.Log
