import Warehouse.CommandLine.Help
import Warehouse.CommandLine.Report
import Warehouse.Query.Document

/-! # The program

What the program prints, and how it ends, given its arguments and the files that it
reads. -/

namespace Warehouse.CommandLine

open Search

/-- The contents of files by their paths. -/
abbrev Files := String → Except Error ByteArray

/-- How the program ends. -/
inductive Ending where
  | success
  /-- The arguments are not understood. -/
  | misuse (cause : UsageError)
  | failure (cause : Failure)

/-- The number by which the caller of the program knows how it ended. -/
def Ending.exitCode : Ending → Nat
  | success => 0
  | misuse _ => 2
  | failure (.error _) => 1
  | failure _ => 101

/-- What the program says about how it ended. -/
def Ending.message? : Ending → Option String
  | success => none
  | misuse cause => some s!"error: {cause.message}"
  | failure (.error cause) => some s!"Error: {cause.message}"
  | failure _ => some "internal error"

/-- What the program did. -/
structure Outcome where
  /-- What is printed, given how many nanoseconds planning took. -/
  output : Nat → String
  ending : Ending

namespace Outcome

/-- Lines were printed. -/
def ofLines (lines : List String) : Outcome := ⟨fun _ => unlines lines, .success⟩

/-- The outcome of something that can fail as a whole. -/
def ofExcept : Except Failure (Nat → String) → Outcome
  | .ok output => ⟨output, .success⟩
  | .error failure => ⟨fun _ => "", .failure failure⟩

/-- The outcome of a report. -/
def ofReport (report : Report) : Outcome :=
  ⟨fun _ => unlines report.lines,
    match report.failure with
    | none => .success
    | some failure => .failure failure⟩

end Outcome

/-- The text in a file. -/
def textOf (files : Files) (path : String) : Except Error String := do
  match String.fromUTF8? (← files path) with
  | some text => return text
  | none => throw (.io "stream did not contain valid UTF-8")

/-- The configuration in a file, or the default one. -/
def configOf (files : Files) : Option String → Except Error Config
  | none => .ok Config.default
  | some path => do Config.ofText (← textOf files path)

/-- A plan in some format. -/
def formatPlan (format : PlanFormat) (plan : ChosenPlan) : Except Error (Nat → String) := do
  match format with
  | .text =>
      let explanation ← plan.explain
      return fun nanoseconds => explanation ++ unlines (planSummary plan nanoseconds)
  | .json =>
      let tree ← plan.tree
      return fun nanoseconds => (planValue plan tree nanoseconds).pretty ++ "\n"

/-- Choose a plan for a query. -/
def runOptimize (files : Files) (query : String) (config : Option String) (format : PlanFormat) :
    Except Failure (Nat → String) := do
  let (query, optimizer) ← Except.mapError Failure.error do
    let config ← configOf files config
    let query ← Query.ofText (← textOf files query)
    return (query, ← Optimizer.ofConfig config)
  let plan ← optimizer.optimize query
  Except.mapError Failure.error (formatPlan format plan)

/-- Do what a command says. -/
def Command.run (files : Files) : Command → Outcome
  | optimize query config format => .ofExcept (runOptimize files query config format)
  | params config =>
      .ofExcept (Except.mapError Failure.error do
        let lines ← paramLines (← configOf files config)
        return fun _ => unlines lines)
  | inspect log heapBlocks =>
      match files log with
      | .error cause => .ofExcept (.error (.error cause))
      | .ok contents => .ofReport (CommandLine.inspect log contents.data.toList heapBlocks)

/-- The files that a command reads. -/
def Command.paths : Command → List String
  | optimize query config _ => config.toList ++ [query]
  | params config => config.toList
  | inspect log _ => [log]

/-- Do what is asked for. -/
def Invocation.run (files : Files) : Invocation → Outcome
  | help command => .ofLines (helpLines command)
  | version => .ofLines [s!"{programName} {programVersion}"]
  | execute command => command.run files

/-- Run the program. -/
def run (files : Files) (arguments : List String) : Outcome :=
  match parse arguments with
  | .ok invocation => invocation.run files
  | .error cause => ⟨fun _ => "", .misuse cause⟩

end Warehouse.CommandLine
