import Warehouse.CommandLine.Program

/-! # The executable

Reads the files that a command names, and prints what the program says. -/

namespace Warehouse

/-- The contents of a file. -/
def readFile (path : String) : IO (Except Error ByteArray) := do
  try
    return .ok (← IO.FS.readBinFile path)
  catch cause =>
    return .error (.io (toString cause))

/-- The contents of the files that an invocation reads. -/
def readFiles : CommandLine.Invocation → IO (List (String × Except Error ByteArray))
  | .execute command => command.paths.mapM fun path => return (path, ← readFile path)
  | _ => return []

/-- Do what is asked for, and say how many nanoseconds it took. -/
def measure (invocation : CommandLine.Invocation) (files : CommandLine.Files) :
    IO (CommandLine.Outcome × Nat) := do
  let start ← IO.monoNanosNow
  let outcome ← IO.lazyPure fun _ => invocation.run files
  return (outcome, (← IO.monoNanosNow) - start)

/-- Say how the program ended. -/
def conclude (ending : CommandLine.Ending) : IO UInt32 := do
  match ending.message? with
  | some message => IO.eprintln message
  | none => pure ()
  return UInt32.ofNat ending.exitCode

end Warehouse

open Warehouse in
/-- Run the program with the arguments of the command line. -/
def main (arguments : List String) : IO UInt32 := do
  match CommandLine.parse arguments with
  | .error cause => conclude (.misuse cause)
  | .ok invocation =>
      let contents ← readFiles invocation
      let files : CommandLine.Files := fun path =>
        (contents.lookup path).getD (.error (.io "no such file"))
      let (outcome, nanoseconds) ← measure invocation files
      IO.print (outcome.output nanoseconds)
      conclude outcome.ending
