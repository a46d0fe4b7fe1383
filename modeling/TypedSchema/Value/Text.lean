import TypedSchema.Json.Printer
import TypedSchema.Text.Quoted
import TypedSchema.Value.Basic

/-!
Values as text: the short form for messages and listings, and the full form that names every
constructor.
-/

namespace TypedSchema

/-- Longer short forms of objects collapse to the name of their type. -/
def objectTextLimit : Nat := 200

namespace Value

mutual
/-- The short form. -/
def text : Value → String
  | .null => "null"
  | .bool value => toString value
  | .integer value => toString value.toInt
  | .number value => value.text Binary64.plainStyle
  | .string value => Text.quote value
  | .timestamp value => value.text
  | .uuid value => value.text
  | .list items => "[" ++ ", ".intercalate (itemTexts items) ++ "]"
  | .map entries => "\x7b" ++ ", ".intercalate (entryTexts entries) ++ "\x7d"
  | .object type attributes =>
    let full := type ++ "(" ++ ",".intercalate (attributeTexts attributes) ++ ")"
    if objectTextLimit < full.length then type ++ "(...)" else full
  | .member value => value.enumeration ++ "." ++ value.name

def itemTexts : List Value → List String
  | [] => []
  | item :: rest => text item :: itemTexts rest

def entryTexts : List (String × Value) → List String
  | [] => []
  | (name, value) :: rest => (Text.quote name ++ ": " ++ text value) :: entryTexts rest

def attributeTexts : List (String × Value) → List String
  | [] => []
  | (name, value) :: rest => (name ++ "=" ++ text value) :: attributeTexts rest
end

/-- The text of an object, or of its attributes. -/
def objectText (type : String) (attributes : Fields Value) : String :=
  text (.object type attributes)

/-! ## The full form -/

/-- Parts between braces with blanks inside, or nothing at all. -/
def braced (parts : List String) : String :=
  if parts.isEmpty then "" else " \x7b " ++ ", ".intercalate parts ++ " \x7d"

def optional (text : Option String) : String :=
  match text with
  | some text => "Some(" ++ text ++ ")"
  | none => "None"

mutual
def jsonFull : Json → String
  | .null => "Null"
  | .bool value => "Bool(" ++ toString value ++ ")"
  | .string value => "String(" ++ Text.quote value ++ ")"
  | .array items => "Array [" ++ ", ".intercalate (jsonFullItems items) ++ "]"
  | .object members => "Object \x7b" ++ ", ".intercalate (jsonFullMembers members) ++ "\x7d"
  | other => "Number(" ++ other.compact ++ ")"

def jsonFullItems : List Json → List String
  | [] => []
  | item :: rest => jsonFull item :: jsonFullItems rest

def jsonFullMembers : List (String × Json) → List String
  | [] => []
  | (name, value) :: rest => (Text.quote name ++ ": " ++ jsonFull value) :: jsonFullMembers rest
end

def memberFull (value : Member) : String :=
  "EnumMember" ++ braced [
    "enum_name: " ++ Text.quote value.enumeration,
    "name: " ++ Text.quote value.name,
    "id: " ++ Text.quote value.id,
    "description: " ++ optional (value.description.map Text.quote),
    "literal: " ++ optional (value.literal.map jsonFull)]

mutual
/-- The full form. -/
def full : Value → String
  | .null => "Null"
  | .bool value => "Bool(" ++ toString value ++ ")"
  | .integer value => "Integer(" ++ toString value.toInt ++ ")"
  | .number value => "Number(" ++ value.text Binary64.plainStyle ++ ")"
  | .string value => "String(" ++ Text.quote value ++ ")"
  | .timestamp value => "DateTime(" ++ value.fullText ++ ")"
  | .uuid value => "Uuid(" ++ value.text ++ ")"
  | .list items => "List([" ++ ", ".intercalate (fullItems items) ++ "])"
  | .map entries => "Map(\x7b" ++ ", ".intercalate (fullEntries entries) ++ "\x7d)"
  | .object type attributes => "Object(" ++ type ++ braced (fullAttributes attributes) ++ ")"
  | .member value => "Enum(" ++ memberFull value ++ ")"

def fullItems : List Value → List String
  | [] => []
  | item :: rest => full item :: fullItems rest

def fullEntries : List (String × Value) → List String
  | [] => []
  | (name, value) :: rest => (Text.quote name ++ ": " ++ full value) :: fullEntries rest

def fullAttributes : List (String × Value) → List String
  | [] => []
  | (name, value) :: rest => (name ++ ": " ++ full value) :: fullAttributes rest
end

end Value

end TypedSchema
