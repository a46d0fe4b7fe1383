import TypedSchema.Naming.Conversion
import TypedSchema.Schema.Definition

/-!
Enumerations: closed sets of members, listed under the names that their ids give them. A value
stands for a member by its id, by a record with the id, or by being the member.
-/

namespace TypedSchema

namespace Member

/-- The id and the description under their keys. -/
def toEntries (member : Member) : Fields Value :=
  [("Id", .string member.id),
    ("Description", (member.description.map Value.string).getD .null)]

/-- The literal, or the record of id and description. -/
def toPlain (member : Member) : Value :=
  match member.literal with
  | some literal => .ofJson literal
  | none => .map member.toEntries

end Member

structure Enumeration where
  name : String
  members : Fields Member

namespace Enumeration

/-- The id that a node of a schema gives. -/
def idOfJson : Json → String
  | .string id => id
  | other => other.compact

/-- The id that a value gives, if it is a string, an integer or a truth value. -/
def idOfValue? : Value → Option String
  | .string id => some id
  | .integer id => some (toString id.toInt)
  | .bool true => some "true"
  | .bool false => some "false"
  | _ => none

/-- Id, description and literal of an entry; null is no entry. -/
def entry? (enumeration : String) :
    Json → Except Error (Option (String × Option String × Option Json))
  | .null => .ok none
  | .object members =>
    match Fields.get? members "Id" with
    | some id =>
      let description := (Fields.get? members "Description").bind Json.string?
      .ok (some (idOfJson id, description, none))
    | none => .error (.unsupported enumeration (.memberWithoutId (.object members)))
  | literal => .ok (some (idOfJson literal, none, some literal))

/-- Adds the members for further entries. All of them share the special names of their naming. -/
def addEntries (enumeration : String) :
    List Json → SpecialNames → Fields Member → Except Error (Fields Member)
  | [], _, members => .ok members
  | raw :: rest, special, members => do
    match ← entry? enumeration raw with
    | none => addEntries enumeration rest special members
    | some (id, description, literal) =>
      let (name, special) := Naming.pascalToUpperSnake id special
      addEntries enumeration rest special
        (Fields.insert members name { enumeration, name, id, description, literal })

def ofDefinition (name : String) (definition : Definition) : Except Error Enumeration :=
  match definition.enum? with
  | some entries => do
    return { name, members := ← addEntries name entries [] [] }
  | none => .error (.unidentified (some name) definition.toJson)

def member? (enumeration : Enumeration) (name : String) : Option Member :=
  Fields.get? enumeration.members name

/-- The first member with an id. -/
def byId? (enumeration : Enumeration) (id : String) : Option Member :=
  (Fields.values enumeration.members).find? (·.id = id)

/-- The member that a value stands for. -/
def lookup? (enumeration : Enumeration) : Value → Option Member
  | .member member =>
    if member.enumeration = enumeration.name then enumeration.member? member.name else none
  | .map entries =>
    ((Fields.get? entries "Id").bind idOfValue?).bind enumeration.byId?
  | value => (idOfValue? value).bind enumeration.byId?

end Enumeration

end TypedSchema
