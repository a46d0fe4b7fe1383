import TypedSchema.Command.Full
import TypedSchema.Compile
import TypedSchema.Decode.Cast
import TypedSchema.Files.Search

/-!
Running a command on a file system. Inputs are loaded one after another, all of them before the
report, and those that loaded are written back in their order. What is printed is collected.
-/

namespace TypedSchema.Command

open Files

/-- Why an input was not loaded. -/
inductive LoadFault where
  | file (error : OsError)
  | data (error : Error)

def LoadFault.message : LoadFault → String
  | .file error => error.message
  | .data error => error.message

/-- Why a command was given up. -/
inductive Fault where
  | schemaFile (path : String) (error : OsError)
  | schema (path : String) (error : Error)
  | compile (path : String) (error : Error)
  | noTitle
  | data (error : Error)
  | pattern (error : PatternError)
  | noMatch (pattern : String)
  | noFileName (path : String)
  | createDirectory (path : String) (error : OsError)
  | writeFile (path : String) (error : OsError)
  | encode (path : String) (error : Error)

def Fault.message : Fault → String
  | .schemaFile file error => s!"failed to load schema {file}: {error.message}"
  | .schema file error => s!"failed to load schema {file}: {error.message}"
  | .compile file error => s!"failed to compile schema {file}: {error.message}"
  | .noTitle => "schema has no title; pass --type"
  | .data error => error.message
  | .pattern error => error.message
  | .noMatch input => s!"glob pattern matched no files: {input}"
  | .noFileName file => s!"input {file} has no file name"
  | .createDirectory directory error => s!"failed to create {directory}: {error.message}"
  | .writeFile file error => s!"failed to write {file}: {error.message}"
  | .encode file error => s!"failed to write {file}: {error.message}"

/-- What was printed. -/
structure Printed where
  out : String := ""
  err : String := ""

abbrev Run (m : Type → Type) := ExceptT Fault (StateT Printed m)

/-- What is left of a command. -/
structure Outcome where
  exit : Nat
  printed : Printed

/-! ## Printing -/

/-- How parts of a line stand out, if colours are wanted. -/
inductive Emphasis where
  | bold
  | dimmed
  | red
  | green

def Emphasis.code : Emphasis → String
  | .bold => "1"
  | .dimmed => "2"
  | .red => "31"
  | .green => "32"

/-- What makes the text behind it stand out. -/
def Emphasis.start (emphasis : Emphasis) : List Char :=
  ("\x1b[" ++ emphasis.code ++ "m").toList

/-- What ends every emphasis. -/
def plainAgain : List Char :=
  "\x1b[0m".toList

/-- The text with `start` behind each place where it ends every emphasis. -/
def takeUpAgain (start : List Char) : List Char → List Char
  | '\x1b' :: '[' :: '0' :: 'm' :: rest => plainAgain ++ start ++ takeUpAgain start rest
  | c :: rest => c :: takeUpAgain start rest
  | [] => []

/-- The text with an emphasis, which is taken up again wherever the text itself ends it. -/
def paint (coloured : Bool) (emphasis : Emphasis) (text : String) : String :=
  if coloured then
    String.ofList (emphasis.start ++ takeUpAgain emphasis.start text.toList ++ plainAgain)
  else text

/-- The text with blanks behind it up to a width. -/
def padded (width : Nat) (text : String) : String :=
  text ++ String.ofList (List.replicate (width - text.length) ' ')

variable {m : Type → Type} [Monad m]

def printLine (line : String) : Run m Unit :=
  modify fun printed => { printed with out := printed.out ++ line ++ "\n" }

def printError (line : String) : Run m Unit :=
  modify fun printed => { printed with err := printed.err ++ line ++ "\n" }

/-! ## Inspecting -/

/-- The line of an entry in the listing. -/
def listingLine (coloured : Bool) (registry : Registry) (entry : Entry) : String :=
  let line := padded 40 entry.name ++ " " ++ padded 18 entry.category.text ++ " " ++
    entry.type.text
  if registry.root = some entry.name then paint coloured .bold line else line

/-- The lines about an entry. Types that have properties are shown with their signatures. -/
def entryLines (coloured : Bool) (registry : Registry) (entry : Entry) : List String :=
  let signature :=
    if [Category.custom, .passthrough, .multiInheritance].contains entry.category then
      match registry.compositeNamed entry.name with
      | .ok composite => ["  " ++ composite.signature.text]
      | .error _ => []
    else []
  [s!"{paint coloured .bold entry.name} ({entry.category.text})",
    s!"  type: {entry.type.text}", s!"  caster: {entry.caster.text}"] ++ signature ++
    [entry.definition.toJson.pretty]

/-! ## Loading -/

def lift {α : Type} (fault : Error → Fault) : Except Error α → Run m α
  | .ok value => return value
  | .error error => throw (fault error)

def loadSchema (system : FileSystem m) (path : String) : Run m Registry := do
  match ← (system.read path : m _) with
  | .error error => throw (.schemaFile path error)
  | .ok bytes =>
    let document ← lift (.schema path) (Document.ofBytes bytes)
    lift (.compile path) document.compile

/-- The type to load inputs as. -/
def targetOf (registry : Registry) (source : SchemaArguments) : Run m String :=
  match source.typeName.or registry.root with
  | some name => return name
  | none => throw .noTitle

def hasWildcards (path : String) : Bool :=
  path.toList.any fun c => ['*', '?', '[', '\x7b'].contains c

/-- The paths that an input stands for. -/
def inputPaths (system : FileSystem m) (input : String) : Run m (List String) := do
  if hasWildcards input then
    match ← (search system input : m _) with
    | .error error => throw (.pattern error)
    | .ok [] => throw (.noMatch input)
    | .ok paths => return paths
  else return [input]

/-- An input, and the object it was loaded as. -/
structure Loaded where
  path : String
  result : Except LoadFault Value

def loadFile (registry : Registry) (type : String) (content : Except OsError (List UInt8))
    (names : NameTable) : Except LoadFault Value × NameTable :=
  match content with
  | .error error => (.error (.file error), names)
  | .ok bytes =>
    let (result, names) := (registry.decodeRead type (Json.ofStream bytes)).run names
    (result.mapError .data, names)

/-- Loads files in order. The special names that one adds are there for the next. -/
def loadFiles (system : FileSystem m) (registry : Registry) (type : String) :
    List String → NameTable → m (List Loaded × NameTable)
  | [], names => return ([], names)
  | path :: rest, names => do
    let (result, names) := loadFile registry type (← system.read path) names
    let (loaded, names) ← loadFiles system registry type rest names
    return (⟨path, result⟩ :: loaded, names)

def loadAll (system : FileSystem m) (registry : Registry) (type : String)
    (inputs : List String) : Run m (List Loaded × NameTable) := do
  let _ ← lift .data (registry.compositeNamed type)
  let paths ← inputs.mapM (inputPaths system)
  (loadFiles system registry type paths.flatten registry.names : m _)

/-! ## Reporting and writing -/

def reportLine (coloured : Bool) (type : String) (loaded : Loaded) : String :=
  match loaded.result with
  | .ok value =>
    paint coloured .green "✅" ++ " " ++ loaded.path ++ " " ++
      paint coloured .dimmed value.label
  | .error fault =>
    paint coloured .red "❌" ++ " " ++
      s!"{loaded.path}: failed to load {loaded.path} as {type}: {fault.message}"

/-- Reports every input, and tells whether all of them were loaded. -/
def report (coloured : Bool) (type : String) (loaded : List Loaded) : Run m Bool := do
  let succeeded := loaded.filter (·.result.toBool)
  loaded.forM fun input => printError (reportLine coloured type input)
  printError s!"{succeeded.length} of {loaded.length} inputs loaded"
  return succeeded.length = loaded.length

/-- Writes an object to the file of its input's name in a directory. -/
def writeInto (system : FileSystem m) (keyOf : KeyOf) (directory path : String) (value : Value) :
    Run m Unit := do
  match fileName? path with
  | none => throw (.noFileName path)
  | some name =>
    let target := join directory name
    let json ← lift (.encode target) (value.toJson keyOf)
    match ← (system.write target json.pretty : m _) with
    | .ok () => return
    | .error error => throw (.writeFile target error)

def writeBack (system : FileSystem m) (keyOf : KeyOf) (directory : Option String)
    (loaded : Loaded) : Run m Unit :=
  match loaded.result, directory with
  | .error _, _ => return
  | .ok value, some directory => writeInto system keyOf directory loaded.path value
  | .ok value, none => do
    let json ← lift .data (value.toJson keyOf)
    printLine json.pretty

def makeDirectory (system : FileSystem m) (path : String) : Run m Unit := do
  match ← (system.createDirectories path : m _) with
  | .ok () => return
  | .error error => throw (.createDirectory path error)

/-! ## Commands -/

def inspectAll (system : FileSystem m) (coloured : Bool) (source : SchemaArguments) :
    Run m Unit := do
  let registry ← loadSchema system source.schema
  match source.typeName with
  | some name =>
    let entry ← lift .data (registry.entry name)
    (entryLines coloured registry entry).forM printLine
  | none =>
    (Fields.values registry.entries).forM fun entry =>
      printLine (listingLine coloured registry entry)

/-- Loads and reports the inputs. -/
def checkAll (system : FileSystem m) (coloured : Bool) (source : SchemaArguments)
    (inputs : List String) : Run m Bool := do
  let registry ← loadSchema system source.schema
  let type ← targetOf registry source
  let (loaded, _) ← loadAll system registry type inputs
  report coloured type loaded

/-- Loads and reports the inputs, and writes those that loaded. -/
def roundtripAll (system : FileSystem m) (coloured : Bool) (source : SchemaArguments)
    (inputs : List String) (out : Option String) : Run m Bool := do
  let registry ← loadSchema system source.schema
  let type ← targetOf registry source
  let (loaded, names) ← loadAll system registry type inputs
  let complete ← report coloured type loaded
  if let some directory := out then makeDirectory system directory
  loaded.forM (writeBack system (registry.keyOf names) out)
  return complete

/-- Whether everything went well. A command that is not to do anything is shown in full. -/
def perform (system : FileSystem m) (coloured : Bool) (command : Command) : Run m Bool := do
  match command with
  | .inspect source => inspectAll system coloured source; return true
  | .check source inputs noOp =>
    if noOp then printError command.full; return true
    else checkAll system coloured source inputs
  | .roundtrip source inputs out noOp =>
    if noOp then printError command.full; return true
    else roundtripAll system coloured source inputs out

/-- Runs a command. It ends with 0 if everything went well, with 1 if some inputs were not loaded,
and with 2 if it was given up. -/
def run (system : FileSystem m) (coloured : Bool) (command : Command) : m Outcome := do
  let (result, printed) ← (perform system coloured command).run.run {}
  match result with
  | .ok complete => return ⟨if complete then 0 else 1, printed⟩
  | .error fault =>
    return ⟨2, { printed with err := printed.err ++ "error: " ++ fault.message ++ "\n" }⟩

/-- Runs the command that arguments give. -/
def runArguments (system : FileSystem m) (coloured : Bool) (arguments : List String) :
    m Outcome :=
  match ofArguments arguments with
  | .ok command => run system coloured command
  | .error .helpWanted => return ⟨0, { out := usage }⟩
  | .error error => return ⟨2, { err := "error: " ++ error.message ++ "\n\n" ++ usage }⟩

end TypedSchema.Command
