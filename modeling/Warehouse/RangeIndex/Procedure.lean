import Warehouse.RangeIndex.Accessor
import Warehouse.Relation

/-! # Interruptible operations

An operation on an index is a tree of requests to the pages, the log and the accessor.
Between two requests, and as long as the operation holds no lock, other operations on
the same relation may run; so what an operation read before it locked a page may be out
of date when it acts on it. `Procedure.run` performs the requests one after the other
without interruption. `run_bind` says how the run of a sequence is made of the runs of
its parts. -/

namespace Warehouse.RangeIndex

/-- The steps that an operation is made of. -/
inductive Request where
  /-- Stop if the user has asked for it. -/
  | poll
  /-- Read the state of the accessor. -/
  | accessor
  /-- Replace the state of the accessor. -/
  | remember (accessor : Accessor)
  /-- Read the length of the relation. -/
  | countBlocks
  /-- Bring a block into memory; it has to exist. -/
  | pin (block : BlockNumber)
  /-- Add a page to the relation. -/
  | allocate
  /-- Read a page under a shared lock that is given back at once. -/
  | view (block : BlockNumber)
  /-- Lock a page exclusively and read it. -/
  | acquire (block : BlockNumber)
  /-- Change a page that is locked exclusively. -/
  | write (block : BlockNumber) (page : Page)
  /-- Note that a page has changes that are not on disk. -/
  | markDirty (block : BlockNumber)
  /-- Give the lock of a page back. -/
  | release (block : BlockNumber)
  /-- Give all locks back. -/
  | releaseAll
  /-- Write a record to the log. The answer is its position, if the relation has a
  log. -/
  | append (record : Log.Record)

/-- What an operation learns from a request. -/
def Request.Answer : Request → Type
  | .accessor => Accessor
  | .countBlocks => BlockNumber
  | .allocate => BlockNumber
  | .view _ => Page
  | .acquire _ => Page
  | .append _ => Option Lsn
  | _ => Unit

/-- An operation that is to give a value of type `α`. -/
inductive Procedure (α : Type) where
  | done (value : α)
  | fail (failure : Failure)
  | ask (request : Request) (next : request.Answer → Procedure α)

namespace Procedure

variable {α β : Type}

/-- Do one operation and then the one that its value asks for. -/
protected def bind : Procedure α → (α → Procedure β) → Procedure β
  | done value, rest => rest value
  | fail failure, _ => fail failure
  | ask request next, rest => ask request fun answer => (next answer).bind rest

instance : Monad Procedure where
  pure := done
  bind := Procedure.bind

instance : MonadLift (Except Fault) Procedure where
  monadLift
    | .ok value => done value
    | .error cause => fail (.fault cause)

instance : MonadLift (Except Error) Procedure where
  monadLift
    | .ok value => done value
    | .error cause => fail (.error cause)

/-- Report a cause. -/
def report (cause : Error) : Procedure α := fail (.error cause)

/-- The operation that is a single request. -/
def request (request : Request) : Procedure request.Answer := ask request done

/-- Stop if the user has asked for it. -/
def poll : Procedure Unit := request .poll

/-- Read the state of the accessor. -/
def accessor : Procedure Accessor := request .accessor

/-- Replace the state of the accessor. -/
def remember (accessor : Accessor) : Procedure Unit := request (.remember accessor)

/-- Read the length of the relation. -/
def countBlocks : Procedure BlockNumber := request .countBlocks

/-- Bring a block into memory. -/
def pin (block : BlockNumber) : Procedure Unit := request (.pin block)

/-- Add a page to the relation. -/
def allocate : Procedure BlockNumber := request .allocate

/-- Read a page under a shared lock. -/
def view (block : BlockNumber) : Procedure Page := request (.view block)

/-- Lock a page exclusively and read it. -/
def acquire (block : BlockNumber) : Procedure Page := request (.acquire block)

/-- Change a locked page. -/
def write (block : BlockNumber) (page : Page) : Procedure Unit := request (.write block page)

/-- Note that a page has changes that are not on disk. -/
def markDirty (block : BlockNumber) : Procedure Unit := request (.markDirty block)

/-- Give the lock of a page back. -/
def release (block : BlockNumber) : Procedure Unit := request (.release block)

/-- Give all locks back. -/
def releaseAll : Procedure Unit := request .releaseAll

/-- Write a record to the log. -/
def append (record : Log.Record) : Procedure (Option Lsn) := request (.append record)

/-- Change a locked page and note that. -/
def change (block : BlockNumber) (page : Page) : Procedure Unit := do
  write block page
  markDirty block

/-- Stamp locked pages with a log position. -/
def stamp (lsn : Lsn) : List (BlockNumber × Page) → Procedure Unit
  | [] => return ()
  | (block, page) :: rest => do
      write block (page.setLsn lsn)
      stamp lsn rest

/-- Write a record to the log and stamp the pages that it describes, which are still
locked, with its position. -/
def logged (record : Log.Record) (pages : List (BlockNumber × Page)) : Procedure Unit := do
  match ← append record with
  | none => return ()
  | some lsn => stamp lsn pages

end Procedure

/-- What an operation acts on. -/
structure World where
  relation : Relation
  /-- The log file, to which several relations may write. -/
  logFile : ByteArray
  accessor : Accessor
  /-- The pages that the operation has locked exclusively. -/
  held : List BlockNumber

namespace World

/-- A page that is about to be locked. -/
def locking (world : World) (block : BlockNumber) : Except Failure Page :=
  if world.held.contains block then .error .deadlocked
  else
    match world.relation.page? block with
    | some page => .ok page
    | none => .error (.error (.invalidBlock block))

/-- Perform a request. -/
def perform (world : World) : (request : Request) → Except Failure request.Answer × World
  | .poll => (if world.accessor.cancelled then .error (.error .cancelled) else .ok (), world)
  | .accessor => (.ok world.accessor, world)
  | .remember accessor => (.ok (), { world with accessor })
  | .countBlocks => (.ok world.relation.blockCount, world)
  | .pin block =>
      match world.relation.read block with
      | (.ok (), relation) => (.ok (), { world with relation })
      | (.error cause, relation) => (.error (.error cause), { world with relation })
  | .allocate =>
      match world.relation.allocate with
      | (.ok block, relation) => (.ok block, { world with relation })
      | (.error cause, relation) => (.error (.error cause), { world with relation })
  | .view block => (world.locking block, world)
  | .acquire block =>
      match world.locking block with
      | .ok page => (.ok page, { world with held := block :: world.held })
      | .error failure => (.error failure, world)
  | .write block page => (.ok (), { world with relation := world.relation.setPage block page })
  | .markDirty block => (.ok (), { world with relation := world.relation.markDirty block })
  | .release block => (.ok (), { world with held := world.held.erase block })
  | .releaseAll => (.ok (), { world with held := [] })
  | .append record =>
      match world.relation.logRecord world.logFile record with
      | (.ok lsn, relation, logFile) => (.ok lsn, { world with relation, logFile })
      | (.error cause, relation, logFile) => (.error (.error cause), { world with relation, logFile })

end World

namespace Procedure

variable {α β : Type}

/-- Perform all requests of an operation without interruption. What was done before a
failure stays done. -/
def run : Procedure α → World → Except Failure α × World
  | done value, world => (.ok value, world)
  | fail failure, world => (.error failure, world)
  | ask request next, world =>
      match world.perform request with
      | (.ok answer, world) => (next answer).run world
      | (.error failure, world) => (.error failure, world)

/-- A sequence runs its first part, and its second part only if that gave a value. -/
theorem run_bind (procedure : Procedure α) (rest : α → Procedure β) (world : World) :
    (procedure.bind rest).run world =
      match procedure.run world with
      | (.ok value, world) => (rest value).run world
      | (.error failure, world) => (.error failure, world) := by
  induction procedure generalizing world with
  | done value => rfl
  | fail failure => rfl
  | ask request next ih =>
      simp only [Procedure.bind, run]
      cases world.perform request with
      | mk outcome world =>
          cases outcome with
          | ok answer => exact ih answer world
          | error failure => rfl

end Procedure

end Warehouse.RangeIndex
