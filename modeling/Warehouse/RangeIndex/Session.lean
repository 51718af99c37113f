import Warehouse.RangeIndex.Operations
import Warehouse.RangeIndex.Recovery

/-! # Sessions

A session holds relations and accessors under names. A name can be given to a new
relation while accessors still use the old one, so that accessors refer to the relation
itself and not to its name. All log files of a session are one file. -/

namespace Warehouse.RangeIndex

/-- How a new relation is logged. -/
inductive Logging where
  | unlogged
  | inMemory
  /-- To the log file, which is created anew. -/
  | inFile
  /-- To the end of the log file, which has to exist. -/
  | reopenFile
  deriving DecidableEq, Repr

/-- An accessor together with the number of the relation that it belongs to. -/
structure Handle where
  relation : Nat
  accessor : Accessor

structure Session where
  relations : Array Relation
  /-- Which relation a name stands for; the first entry of a name counts. -/
  names : List (String × Nat)
  accessors : List (String × Handle)
  logFile : Option ByteArray

namespace Session

/-- The session without relations. -/
def empty : Session := ⟨#[], [], [], none⟩

/-- How many rounds a loop may take. No loop that ends takes that many. -/
def rounds : Nat := 0x10000000000

/-- Start a log, creating or opening the log file. -/
def startLog (session : Session) : Logging → Except Error (Option Log.Writer × Option ByteArray)
  | .unlogged => .ok (none, session.logFile)
  | .inMemory => .ok (some (.memory .empty), session.logFile)
  | .inFile => .ok (some (.file 0 false), some .empty)
  | .reopenFile =>
      match session.logFile with
      | none => .error (.io "no log file")
      | some file => .ok (some (.file file.size true), some file)

/-- Give a name to a new relation without pages. -/
def createRelation (session : Session) (key name : String) (logging : Logging) :
    Except Error Unit × Session :=
  match session.startLog logging with
  | .error cause => (.error cause, session)
  | .ok (log, logFile) =>
      (.ok (), { session with
        relations := session.relations.push (.empty name log)
        names := (key, session.relations.size) :: session.names
        logFile })

/-- The number of the relation that a name stands for. -/
def relationNumber (session : Session) (key : String) : Option Nat :=
  session.names.lookup key

/-- The relation that a name stands for. -/
def relation? (session : Session) (key : String) : Option Relation := do
  session.relations[← session.relationNumber key]?

/-- Replace the relation that a name stands for. -/
def setRelation (session : Session) (key : String) (relation : Relation) : Session :=
  match session.relationNumber key with
  | none => session
  | some number => { session with relations := session.relations.setIfInBounds number relation }

/-- Run an operation on a relation with an accessor, and give all locks back. -/
def runOn {α : Type} (session : Session) (number : Nat) (accessor : Accessor) (procedure : Procedure α) :
    Except Failure α × Session × Accessor :=
  match session.relations[number]? with
  | none => (.error (Error.invalidBlock invalidBlock), session, accessor)
  | some relation =>
      let (outcome, world) :=
        procedure.run ⟨relation, session.logFile.getD .empty, accessor, []⟩
      (outcome,
        { session with
          relations := session.relations.setIfInBounds number world.relation
          logFile := session.logFile.map fun _ => world.logFile },
        world.accessor)

/-- Run an operation on a named relation with an accessor that is not kept. -/
def run {α : Type} (session : Session) (key : String) (procedure : String → Procedure α) :
    Option (Except Failure α × Session) := do
  let number ← session.relationNumber key
  let relation ← session.relations[number]?
  let (outcome, session, _) := session.runOn number .unopened (procedure relation.name)
  return (outcome, session)

/-- The accessor of a name. -/
def handle? (session : Session) (key : String) : Option Handle := session.accessors.lookup key

/-- Close the accessor of a name. -/
def closeAccessor (session : Session) (key : String) : Session :=
  { session with accessors := session.accessors.filter fun entry => entry.1 != key }

/-- Give a name to an accessor, closing the one that had it. -/
def setHandle (session : Session) (key : String) (handle : Handle) : Session :=
  { session with accessors := (key, handle) :: (session.closeAccessor key).accessors }

/-- Open the index of a named relation. -/
def openAccessor (session : Session) (key relationKey : String) :
    Option (Except Failure Unit × Session) := do
  let number ← session.relationNumber relationKey
  let relation ← session.relations[number]?
  let (outcome, session, accessor) := session.runOn number .unopened (openIndex relation.name)
  match outcome with
  | .ok () => return (.ok (), session.setHandle key ⟨number, accessor⟩)
  | .error failure => return (.error failure, session)

/-- Run an operation with a named accessor. -/
def runWith {α : Type} (session : Session) (key : String) (procedure : Procedure α) :
    Option (Except Failure α × Session) := do
  let handle ← session.handle? key
  let (outcome, session, accessor) := session.runOn handle.relation handle.accessor procedure
  return (outcome, session.setHandle key { handle with accessor })

/-- How many pages of a relation the accessors keep in memory. -/
def pins (session : Session) (number : Nat) : Nat :=
  (session.accessors.filter fun entry => entry.2.relation == number).foldl
    (fun count entry => count + entry.2.accessor.pins) 0

/-- The records in the log of a relation. -/
def logRecords (session : Session) (relation : Relation) :
    Except Failure (List (Lsn × Log.Record)) :=
  match relation.log with
  | none => .ok []
  | some writer => Log.decodeLog (writer.contents (session.logFile.getD .empty))

end Session

end Warehouse.RangeIndex
