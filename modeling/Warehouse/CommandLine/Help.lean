import Warehouse.CommandLine.Command

/-! # Help texts -/

namespace Warehouse.CommandLine

/-- What a command does. -/
def CommandName.summary : CommandName → String
  | optimize => "Find the cheapest plan for a query"
  | params => "Print the effective cost model parameters"
  | inspect => "Replay a range index WAL and inspect its revmap"

/-- How the arguments of a command are written. -/
def CommandName.synopsis : CommandName → String
  | optimize => "[OPTIONS] <query>"
  | params => "[OPTIONS]"
  | inspect => "[OPTIONS] <wal>"

/-- The lines about the options of a command. -/
def CommandName.optionLines : CommandName → List String
  | optimize =>
      ["      --config <config>          Optimizer configuration file",
        "      --format <format>          Output format [default: text] [possible values: text, json]"]
  | params => ["      --config <config>          Optimizer configuration file"]
  | inspect => ["      --heap-block <heap-block>  Heap block whose summary to look up"]

/-- The lines about the options that all commands have. -/
def commonOptionLines : List String :=
  ["  -v, --verbose...               Increase log verbosity",
    "      --log-json                 Emit logs as JSON",
    "  -h, --help                     Print help"]

/-- The help for a command. -/
def CommandName.help (name : CommandName) : List String :=
  [name.summary, "", s!"Usage: {programName} {name.text} {name.synopsis}", "", "Options:"] ++
    name.optionLines ++ commonOptionLines

/-- The help for the program. -/
def generalHelp : List String :=
  ["MPP plan costing and range index inspection", "",
    s!"Usage: {programName} [OPTIONS] <COMMAND>", "", "Commands:"] ++
    (CommandName.all.map fun name =>
      "  " ++ name.text ++ String.ofList (List.replicate (14 - name.text.length) ' ') ++
        name.summary) ++
    ["", "Options:"] ++ commonOptionLines ++ ["  -V, --version                  Print version"]

/-- The help for a command, or for the program. -/
def helpLines (command : Option String) : List String :=
  match command.bind CommandName.ofText? with
  | some name => name.help
  | none => generalHelp

end Warehouse.CommandLine
