/-!
The command line: `inspect`, `check` or `roundtrip`, and options behind it. An option takes the
values that follow it, or the one that is attached to it, as in `--schema=s.json` or `-ss.json`.
-/

namespace TypedSchema

/-- The schema document, and the type to use instead of the one it is titled after. -/
structure SchemaArguments where
  schema : String
  typeName : Option String

inductive Command where
  /-- Lists the compiled types, or shows the one that is named. -/
  | inspect (source : SchemaArguments)
  /-- Loads each input and reports failures. -/
  | check (source : SchemaArguments) (inputs : List String) (noOp : Bool)
  /-- Loads each input and writes it back out. -/
  | roundtrip (source : SchemaArguments) (inputs : List String) (out : Option String)
    (noOp : Bool)

namespace Command

inductive OptionName where
  | schema
  | typeName
  | input
  | out
  | noOp
deriving DecidableEq

inductive UsageError where
  | helpWanted
  | noCommand
  | unknownCommand (name : String)
  | unexpected (argument : String)
  | missing (name : OptionName)
  | badValues (name : OptionName)
  | repeated (name : OptionName)

def OptionName.text : OptionName → String
  | .schema => "--schema"
  | .typeName => "--type"
  | .input => "--input"
  | .out => "--out"
  | .noOp => "--no-op"

def usage : String :=
  "usage: schema-objects inspect --schema FILE [--type NAME]\n" ++
  "       schema-objects check --schema FILE [--type NAME] --input INPUT... [--no-op]\n" ++
  "       schema-objects roundtrip --schema FILE [--type NAME] --input INPUT... " ++
  "[--out DIR] [--no-op]\n"

def UsageError.message : UsageError → String
  | .helpWanted => usage
  | .noCommand => "a command is required"
  | .unknownCommand name => s!"unknown command {name}"
  | .unexpected argument => s!"unexpected argument {argument}"
  | .missing name => s!"{name.text} is required"
  | .badValues name => s!"wrong number of values for {name.text}"
  | .repeated name => s!"{name.text} is given more than once"

/-! ## Options with their values -/

/-- An argument is an option, perhaps with a value attached, or a value. -/
inductive Argument where
  | option (name : OptionName) (attached : Option String)
  | value (text : String)

/-- An option and its values. -/
structure Given where
  name : OptionName
  values : List String

def longName? : String → Option OptionName
  | "schema" => some .schema
  | "type" => some .typeName
  | "input" => some .input
  | "out" => some .out
  | "no-op" => some .noOp
  | _ => none

def shortName? : Char → Option OptionName
  | 's' => some .schema
  | 't' => some .typeName
  | 'i' => some .input
  | 'o' => some .out
  | _ => none

/-- The value attached behind a short name, with or without an equals sign. -/
def attachedShort : List Char → Option String
  | [] => none
  | '=' :: value => some (String.ofList value)
  | value => some (String.ofList value)

def Argument.ofString (argument : String) : Except UsageError Argument :=
  if argument = "-h" || argument = "--help" then .error .helpWanted
  else
    match argument.toList with
    | '-' :: '-' :: rest =>
      let name := rest.takeWhile (· ≠ '=')
      let attached :=
        if rest.contains '=' then some (String.ofList (rest.drop (name.length + 1))) else none
      match longName? (String.ofList name) with
      | some name => .ok (.option name attached)
      | none => .error (.unexpected argument)
    | '-' :: letter :: rest =>
      match shortName? letter with
      | some name => .ok (.option name (attachedShort rest))
      | none => .error (.unexpected argument)
    | _ => .ok (.value argument)

/-- The options with the values behind them, and the values before the first option. -/
def gather : List Argument → Except UsageError (List String × List Given)
  | [] => .ok ([], [])
  | .value text :: rest => do
    let (values, given) ← gather rest
    return (text :: values, given)
  | .option name none :: rest => do
    let (values, given) ← gather rest
    return ([], ⟨name, values⟩ :: given)
  | .option name (some attached) :: rest => do
    let (values, given) ← gather rest
    if let value :: _ := values then throw (.unexpected value)
    return ([], ⟨name, [attached]⟩ :: given)

def givenOptions (arguments : List String) : Except UsageError (List Given) := do
  let arguments := if arguments.getLast? = some "--" then arguments.dropLast else arguments
  let (values, given) ← gather (← arguments.mapM Argument.ofString)
  match values with
  | value :: _ => throw (.unexpected value)
  | [] => return given

/-! ## Commands -/

/-- The value of an option that is given at most once. -/
def single? (given : List Given) (name : OptionName) : Except UsageError (Option String) :=
  match given.filter (·.name = name) with
  | [] => .ok none
  | [⟨_, [value]⟩] => .ok (some value)
  | [_] => .error (.badValues name)
  | _ => .error (.repeated name)

/-- A path that is given at most once, and is not empty. -/
def singlePath? (given : List Given) (name : OptionName) : Except UsageError (Option String) := do
  match ← single? given name with
  | some "" => throw (.badValues name)
  | path => return path

def sourceOf (given : List Given) : Except UsageError SchemaArguments := do
  match ← singlePath? given .schema with
  | some schema => return { schema, typeName := ← single? given .typeName }
  | none => throw (.missing .schema)

def inputsOf (given : List Given) : Except UsageError (List String) := do
  let occurrences := given.filter (·.name = .input)
  if occurrences.isEmpty then throw (.missing .input)
  if occurrences.any (·.values.isEmpty) then throw (.badValues .input)
  return occurrences.flatMap Given.values

def noOpOf (given : List Given) : Except UsageError Bool :=
  match given.filter (·.name = .noOp) with
  | [] => .ok false
  | [⟨_, []⟩] => .ok true
  | [_] => .error (.badValues .noOp)
  | _ => .error (.repeated .noOp)

/-- Only some options belong to a command. -/
def restrict (allowed : List OptionName) (given : List Given) : Except UsageError Unit :=
  match given.find? fun option => !allowed.contains option.name with
  | some option => .error (.unexpected option.name.text)
  | none => .ok ()

def ofArguments : List String → Except UsageError Command
  | [] => .error .noCommand
  | "inspect" :: arguments => do
    let given ← givenOptions arguments
    restrict [.schema, .typeName] given
    return .inspect (← sourceOf given)
  | "check" :: arguments => do
    let given ← givenOptions arguments
    restrict [.schema, .typeName, .input, .noOp] given
    return .check (← sourceOf given) (← inputsOf given) (← noOpOf given)
  | "roundtrip" :: arguments => do
    let given ← givenOptions arguments
    return .roundtrip (← sourceOf given) (← inputsOf given) (← singlePath? given .out)
      (← noOpOf given)
  | "-h" :: _ => .error .helpWanted
  | "--help" :: _ => .error .helpWanted
  | name :: _ => .error (.unknownCommand name)

end Command

end TypedSchema
