import Warehouse.Block
import Warehouse.Decimal.Text
import Warehouse.Hex

/-! # How an operation can fail

An `Error` is a cause that callers are told about: it has a code and a message.
A `Fault` is a step without a defined result, such as an access past the end of
a page; nothing is promised after one. `Failure` puts the two together with the
ways in which a loop or a lock never comes to an end. -/

namespace Warehouse

/-- The causes that operations report. -/
inductive Error where
  | io (reason : String)
  | indexCorrupted (index : String) (block : BlockNumber) (reason : String)
  | unexpectedPageType (index : String) (block : BlockNumber) (pageType : UInt16)
  | rangeMapNotCovering (heapBlock : BlockNumber)
  | invalidBlock (block : BlockNumber)
  | invalidSlot (slot : Nat)
  | pageFull (block : BlockNumber)
  | invalidParameter (parameter : String) (value : Float)
  | invalidPlan (reason : String)
  | noPlanFound (wanted : String)
  | cancelled
  | log (reason : String)
  | serialization (reason : String)
  | config (reason : String)
  deriving DecidableEq

namespace Error

/-- The number by which callers outside the library know the cause. -/
def code : Error → Int
  | io .. => -1
  | indexCorrupted .. => -2
  | unexpectedPageType .. => -3
  | rangeMapNotCovering .. => -4
  | invalidBlock .. => -5
  | invalidSlot .. => -6
  | pageFull .. => -7
  | invalidParameter .. => -8
  | invalidPlan .. => -9
  | noPlanFound .. => -10
  | cancelled => -11
  | log .. => -12
  | serialization .. => -13
  | config .. => -14

/-- Whether the stored index itself is damaged, so that retrying cannot help. -/
def isCorruption : Error → Bool
  | indexCorrupted .. => true
  | unexpectedPageType .. => true
  | _ => false

/-- The text shown to users. -/
def message : Error → String
  | io reason => s!"IO error: {reason}"
  | indexCorrupted index block reason =>
      s!"corrupted BRIN index \"{index}\" block {block.toNat}: {reason}"
  | unexpectedPageType index block pageType =>
      s!"unexpected page type 0x{hexUpper 4 pageType.toNat} in BRIN index \"{index}\" block {block.toNat}"
  | rangeMapNotCovering heapBlock => s!"revmap does not cover heap block {heapBlock.toNat}"
  | invalidBlock block => s!"Invalid block number: {block.toNat}"
  | invalidSlot slot => s!"Invalid concurrency slot: {slot}"
  | pageFull block => s!"No room on page {block.toNat}"
  | invalidParameter parameter value =>
      s!"cost model parameter {parameter} has invalid value {Decimal.plain.text value}"
  | invalidPlan reason => s!"Invalid plan: {reason}"
  | noPlanFound wanted => s!"No plan satisfies the requested properties: {wanted}"
  | cancelled => "Operation cancelled"
  | log reason => s!"WAL error: {reason}"
  | serialization reason => s!"Serialization error: {reason}"
  | config reason => s!"Configuration error: {reason}"

end Error

/-- Steps that have no defined result. -/
inductive Fault where
  | outOfBounds
  | divisionByZero
  | overflow
  | failedAssertion
  deriving DecidableEq, Repr

/-- Every way in which an operation can end without a result. -/
inductive Failure where
  | error (cause : Error)
  | fault (cause : Fault)
  /-- A loop was still running after as many rounds as it was allowed. -/
  | exhausted
  /-- The operation waits for a lock that it holds itself. -/
  | deadlocked
  deriving DecidableEq

instance : Coe Error Failure := ⟨.error⟩

instance : Coe Fault Failure := ⟨.fault⟩

/-- Read a computation that can only fault as one that can fail. -/
def Failure.ofFault {α : Type} : Except Fault α → Except Failure α
  | .ok value => .ok value
  | .error cause => .error (.fault cause)

end Warehouse
