import Warehouse.CommandLine.Arguments

/-! # Commands

What the program can be asked to do, and how arguments say it. -/

namespace Warehouse.CommandLine

/-- How a plan is written. -/
inductive PlanFormat where
  | text
  | json
  deriving DecidableEq, Repr

/-- The commands with their arguments. -/
inductive Command where
  /-- Choose a plan for the query in a file. -/
  | optimize (query : String) (config : Option String) (format : PlanFormat)
  /-- Show the parameters of the cost model. -/
  | params (config : Option String)
  /-- Show what the log in a file says about an index, and the summaries for some table
  blocks. -/
  | inspect (log : String) (heapBlocks : List UInt32)
  deriving DecidableEq, Repr

/-- What the program is asked for. -/
inductive Invocation where
  | help (command : Option String)
  | version
  | execute (command : Command)
  deriving DecidableEq, Repr

/-- The name of the program. -/
def programName : String := "mpp-cost"

/-- The version of the program. -/
def programVersion : String := "0.1.0"

/-- The commands by their names. -/
inductive CommandName where
  | optimize
  | params
  | inspect
  deriving DecidableEq, Repr

namespace CommandName

/-- All commands. -/
def all : List CommandName := [optimize, params, inspect]

/-- The name of a command as an argument. -/
def text : CommandName → String
  | optimize => "optimize"
  | params => "params"
  | inspect => "brin-inspect"

/-- The command with a name. -/
def ofText? (name : String) : Option CommandName := all.find? fun command => command.text == name

end CommandName

/-- The options that may stand before and after a command. -/
def commonOptions : List OptionSpec :=
  [⟨"verbose", some 'v', true, .switch⟩, ⟨"log-json", none, false, .switch⟩,
    ⟨"help", some 'h', false, .help⟩]

/-- What may stand before a command. -/
def leadingGrammar : Grammar :=
  ⟨commonOptions ++ [⟨"version", some 'V', false, .version⟩], 0⟩

/-- The option that names the file with the configuration. -/
def configOption : OptionSpec := ⟨"config", none, false, .value fun _ => true⟩

/-- The option for the format of a plan. -/
def formatOption : OptionSpec :=
  ⟨"format", none, false, .value fun text => text == "text" || text == "json"⟩

/-- The number of a table block: decimal digits after an optional sign. -/
def blockOf? (text : String) : Option UInt32 := do
  let (negative, digits) :=
    match text.toList with
    | '-' :: digits => (true, digits)
    | '+' :: digits => (false, digits)
    | digits => (false, digits)
  let number ← Plan.decimalNumber digits
  if number < UInt32.size ∧ (negative → number = 0) then return UInt32.ofNat number else none

/-- The option for a table block. -/
def heapBlockOption : OptionSpec :=
  ⟨"heap-block", none, true, .value fun text => (blockOf? text).isSome⟩

/-- What may follow a command. -/
def CommandName.grammar : CommandName → Grammar
  | optimize => ⟨commonOptions ++ [configOption, formatOption], 1⟩
  | params => ⟨commonOptions ++ [configOption], 0⟩
  | inspect => ⟨commonOptions ++ [heapBlockOption], 1⟩

/-- The command that the arguments after its name stand for. -/
def CommandName.command (reading : Reading) : CommandName → Except Stop Command
  | optimize => do
      let query ← reading.operand 0 "query"
      let format := if reading.valueOf "format" = some "json" then .json else .text
      return .optimize query (reading.valueOf "config") format
  | params => return .params (reading.valueOf "config")
  | inspect => do
      let log ← reading.operand 0 "wal"
      return .inspect log ((reading.valuesOf "heap-block").filterMap blockOf?)

/-- What arguments ask for that ended early while a command was read. -/
def Stop.invocation (command : Option String) : Stop → Except UsageError Invocation
  | help => .ok (.help command)
  | version => .ok .version
  | misuse cause => .error cause

/-- What is asked for by the arguments after the name of a command. -/
def CommandName.parse (name : CommandName) (arguments : List String) :
    Except UsageError Invocation :=
  match name.grammar.read arguments >>= name.command with
  | .ok command => .ok (.execute command)
  | .error stop => stop.invocation (some name.text)

/-- What is asked for by the arguments after `help`. -/
def parseHelp : List String → Except UsageError Invocation
  | [] => .ok (.help none)
  | name :: rest =>
      if (CommandName.ofText? name).isSome ∨ name = "help" then
        match rest with
        | [] => .ok (.help (some name))
        | other :: _ => .error (.unknownCommand other)
      else .error (.unknownCommand name)

/-- What is asked for by a name and the arguments after it. -/
def parseNamed (name : String) (arguments : List String) : Except UsageError Invocation :=
  match CommandName.ofText? name with
  | some command => command.parse arguments
  | none => if name = "help" then parseHelp arguments else .error (.unknownCommand name)

/-- What is asked for by arguments after some options. -/
def parseFrom (reading : Reading) : List String → Except UsageError Invocation
  | [] => .error .noCommand
  | argument :: rest =>
      if argument = "--" then .error ((rest.head?.map UsageError.unknownCommand).getD .noCommand)
      else if isOption argument then
        match reading.take leadingGrammar argument with
        | .ok reading => parseFrom reading rest
        | .error stop => stop.invocation none
      else parseNamed argument rest

/-- What is asked for by the arguments of the program. -/
def parse (arguments : List String) : Except UsageError Invocation := parseFrom .start arguments

end Warehouse.CommandLine
