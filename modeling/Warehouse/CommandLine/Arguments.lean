import Warehouse.Plan.Document

/-! # Arguments

Options begin with a dash and may stand anywhere among the other arguments, up to the
argument `--`. The value of an option follows an equals sign or is the next argument. The
first argument that is wrong, or that asks for help, decides what happens. -/

namespace Warehouse.CommandLine

/-- Why arguments are not understood. -/
inductive UsageError where
  | noCommand
  | unknownCommand (name : String)
  | unexpectedArgument (text : String)
  | missingArgument (name : String)
  | missingValue (option : String)
  | invalidValue (option value : String)
  | repeatedOption (option : String)
  deriving DecidableEq, Repr

/-- The text of a usage error. -/
def UsageError.message : UsageError → String
  | noCommand => "a command is required"
  | unknownCommand name => s!"unrecognized command '{name}'"
  | unexpectedArgument text => s!"unexpected argument '{text}' found"
  | missingArgument name => s!"the argument <{name}> was not provided"
  | missingValue option => s!"a value is required for '--{option}'"
  | invalidValue option value => s!"invalid value '{value}' for '--{option}'"
  | repeatedOption option => s!"the option '--{option}' cannot be used multiple times"

/-- What an option does. -/
inductive Usage where
  | help
  | version
  | switch
  | value (accepts : String → Bool)

/-- An option, by its name after two dashes or its letter after one. -/
structure OptionSpec where
  name : String
  letter : Option Char
  /-- Whether it may be given more than once. -/
  repeatable : Bool
  usage : Usage

/-- The options and the number of other arguments that are understood. -/
structure Grammar where
  options : List OptionSpec
  operands : Nat

/-- What ends the reading of arguments early. -/
inductive Stop where
  | help
  | version
  | misuse (cause : UsageError)
  deriving DecidableEq, Repr

/-- What has been read of the arguments. -/
structure Reading where
  /-- The options that were given, with their values; those without have an empty one. -/
  options : List (String × String)
  operands : List String
  /-- An option whose value comes next. -/
  pending : Option OptionSpec
  /-- Whether only operands can follow. -/
  operandsOnly : Bool

namespace Reading

/-- Nothing has been read. -/
def start : Reading := ⟨[], [], none, false⟩

/-- The values that were given for an option, in order. -/
def valuesOf (reading : Reading) (name : String) : List String :=
  (reading.options.filter fun entry => entry.1 == name).map Prod.snd

/-- The value that was given for an option. -/
def valueOf (reading : Reading) (name : String) : Option String := (reading.valuesOf name).head?

/-- Note an option with its value. -/
def note (reading : Reading) (option : OptionSpec) (value : String) : Except Stop Reading :=
  if !option.repeatable && !(reading.valuesOf option.name).isEmpty then
    .error (.misuse (.repeatedOption option.name))
  else .ok { reading with options := reading.options ++ [(option.name, value)], pending := none }

/-- Note an option with a value that has to be acceptable. -/
def noteValue (reading : Reading) (option : OptionSpec) (accepts : String → Bool) (value : String) :
    Except Stop Reading :=
  if accepts value then reading.note option value
  else .error (.misuse (.invalidValue option.name value))

/-- Take an option, whose value may stand with it. -/
def takeOption (reading : Reading) (text : String) (option : OptionSpec) (value : Option String) :
    Except Stop Reading :=
  match option.usage, value with
  | .value accepts, some value => reading.noteValue option accepts value
  | .value _, none => .ok { reading with pending := some option }
  | .switch, none => reading.note option ""
  | .help, none => .error .help
  | .version, none => .error .version
  | _, some _ => .error (.misuse (.unexpectedArgument text))

/-- Take an argument that begins with two dashes. -/
def takeLong (reading : Reading) (grammar : Grammar) (text : String) (body : List Char) :
    Except Stop Reading :=
  let name := String.ofList (body.takeWhile (· ≠ '='))
  let value :=
    match body.dropWhile (· ≠ '=') with
    | [] => none
    | _ :: value => some (String.ofList value)
  match grammar.options.find? fun option => option.name == name with
  | none => .error (.misuse (.unexpectedArgument text))
  | some option => reading.takeOption text option value

/-- Take the letters after one dash. -/
def takeLetters (reading : Reading) (grammar : Grammar) (text : String) :
    List Char → Except Stop Reading
  | [] => .ok reading
  | letter :: rest =>
      match grammar.options.find? fun option => option.letter == some letter with
      | none => .error (.misuse (.unexpectedArgument text))
      | some option => do
          (← reading.takeOption text option none).takeLetters grammar text rest

/-- Take an argument that is not an option. -/
def takeOperand (reading : Reading) (grammar : Grammar) (text : String) : Except Stop Reading :=
  if reading.operands.length < grammar.operands then
    .ok { reading with operands := reading.operands ++ [text] }
  else .error (.misuse (.unexpectedArgument text))

/-- Take an argument where an option may stand. -/
def takeAny (reading : Reading) (grammar : Grammar) (text : String) : Except Stop Reading :=
  match text.toList with
  | ['-', '-'] => .ok { reading with operandsOnly := true }
  | '-' :: '-' :: body => reading.takeLong grammar text body
  | '-' :: letter :: letters => reading.takeLetters grammar text (letter :: letters)
  | _ => reading.takeOperand grammar text

end Reading

/-- Whether an argument cannot be an operand or the value of an option: it begins with a
dash and is longer than that. -/
def isOption (text : String) : Bool :=
  match text.toList with
  | '-' :: _ :: _ => true
  | _ => false

namespace Reading

/-- Take the next argument. -/
def take (grammar : Grammar) (reading : Reading) (text : String) : Except Stop Reading :=
  if reading.operandsOnly then reading.takeOperand grammar text
  else
    match reading.pending with
    | none => reading.takeAny grammar text
    | some option =>
        if isOption text then .error (.misuse (.missingValue option.name))
        else reading.takeOption text option (some text)

/-- Check that no option still waits for its value. -/
def finish (reading : Reading) : Except Stop Reading :=
  match reading.pending with
  | some option => .error (.misuse (.missingValue option.name))
  | none => .ok reading

/-- The operand at a position, which has to be there. -/
def operand (reading : Reading) (position : Nat) (name : String) : Except Stop String :=
  match reading.operands[position]? with
  | some text => .ok text
  | none => .error (.misuse (.missingArgument name))

end Reading

/-- Read all arguments. -/
def Grammar.read (grammar : Grammar) (arguments : List String) : Except Stop Reading := do
  (← arguments.foldlM (Reading.take grammar) .start).finish

end Warehouse.CommandLine
