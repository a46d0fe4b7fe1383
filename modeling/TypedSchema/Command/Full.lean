import TypedSchema.Command.Arguments
import TypedSchema.Text.Quoted

/-!
A command in full: every constructor and field by name, one to a line.
-/

namespace TypedSchema.Command

/-- A value in full, before it is laid out. -/
inductive Full where
  | text (text : String)
  | record (name : String) (fields : List (String × Full))
  | wrapped (name : String) (inner : Full)
  | list (items : List Full)

namespace Full

/-- A line break, and the indentation of a level. -/
def newLine (level : Nat) : String :=
  "\n" ++ String.ofList (List.replicate (4 * level) ' ')

mutual
/-- Laid out from a level of indentation on. -/
def layout (level : Nat) : Full → String
  | .text shown => shown
  | .record title fields =>
    title ++ " \x7b" ++ layoutFields (level + 1) fields ++ newLine level ++ "\x7d"
  | .wrapped title inner =>
    title ++ "(" ++ newLine (level + 1) ++ layout (level + 1) inner ++ "," ++ newLine level ++ ")"
  | .list [] => "[]"
  | .list items => "[" ++ layoutItems (level + 1) items ++ newLine level ++ "]"

def layoutFields (level : Nat) : List (String × Full) → String
  | [] => ""
  | (name, value) :: rest =>
    newLine level ++ name ++ ": " ++ layout level value ++ "," ++ layoutFields level rest

def layoutItems (level : Nat) : List Full → String
  | [] => ""
  | item :: rest => newLine level ++ layout level item ++ "," ++ layoutItems level rest
end

def ofOption : Option Full → Full
  | some inner => .wrapped "Some" inner
  | none => .text "None"

def ofString (text : String) : Full :=
  .text (Text.quote text)

def ofBool (value : Bool) : Full :=
  .text (toString value)

end Full

def SchemaArguments.toFull (source : SchemaArguments) : Full :=
  .record "SchemaSettings" [("schema", .ofString source.schema),
    ("type_name", .ofOption (source.typeName.map .ofString))]

def inputsToFull (inputs : List String) : Full :=
  .record "InputSettings" [("input", .list (inputs.map .ofString))]

def toFull : Command → Full
  | .inspect source =>
    .wrapped "Inspect" (.record "InspectCmd" [("schema_settings", SchemaArguments.toFull source)])
  | .check source inputs noOp =>
    .wrapped "Check" (.record "CheckCmd" [("schema_settings", SchemaArguments.toFull source),
      ("input_settings", inputsToFull inputs), ("no_op", .ofBool noOp)])
  | .roundtrip source inputs out noOp =>
    .wrapped "Roundtrip" (.record "RoundtripCmd"
      [("schema_settings", SchemaArguments.toFull source),
        ("input_settings", inputsToFull inputs), ("out", .ofOption (out.map .ofString)),
        ("no_op", .ofBool noOp)])

/-- The command line in full. -/
def full (command : Command) : String :=
  (Full.record "CommandLineInterface" [("cmd", command.toFull)]).layout 0

end TypedSchema.Command
