import TypedSchema.Error
import TypedSchema.Json.Shape

/-!
Schema nodes: the members of an object of a schema document, with accessors for the keywords that
have a meaning here. A keyword whose value has another shape than expected counts as absent.
-/

namespace TypedSchema

/-- Every `~` before the mark, together with the mark, becomes the replacement. -/
def unescape (mark replacement : Char) : List Char → List Char
  | '~' :: c :: rest =>
    if c = mark then replacement :: unescape mark replacement rest
    else '~' :: unescape mark replacement (c :: rest)
  | c :: rest => c :: unescape mark replacement rest
  | [] => []

/-- The definition that a reference points at: its last segment, in which `~1` stands for `/` and
`~0` for `~`. -/
def referenceName (reference : String) : String :=
  let segment := (reference.toList.reverse.takeWhile (· ≠ '/')).reverse
  String.ofList (unescape '0' '~' (unescape '1' '/' segment))

/-- The property whose value chooses the type, and the references that its values stand for. -/
structure Discriminator where
  property : String
  mapping : Option (Fields String)

structure Definition where
  members : Fields Json

namespace Definition

def ofJson (json : Json) : Except Error Definition :=
  match json with
  | .object members => .ok ⟨members⟩
  | other => .error (.unidentified none other)

def toJson (definition : Definition) : Json :=
  .object definition.members

def get? (definition : Definition) (keyword : String) : Option Json :=
  Fields.get? definition.members keyword

def has (definition : Definition) (keyword : String) : Bool :=
  Fields.has definition.members keyword

def string? (definition : Definition) (keyword : String) : Option String :=
  (definition.get? keyword).bind Json.string?

def array? (definition : Definition) (keyword : String) : Option (List Json) :=
  (definition.get? keyword).bind Json.array?

def reference? (definition : Definition) : Option String :=
  definition.string? "$ref"

/-- The name of the definition that is referred to. -/
def referenceName? (definition : Definition) : Option String :=
  definition.reference?.map referenceName

def allOf? (definition : Definition) : Option (List Json) :=
  definition.array? "allOf"

/-- The alternatives, under `oneOf` if there is one and else under `anyOf`. -/
def oneOf? (definition : Definition) : Option (List Json) :=
  definition.array? (if definition.has "oneOf" then "oneOf" else "anyOf")

/-- The type, or the first type other than null of a list. -/
def typeName? (definition : Definition) : Option String :=
  match definition.get? "type" with
  | some (.string name) => some name
  | some (.array names) => (Json.strings names).find? (· ≠ "null")
  | _ => none

def nativeTypeNames : List String :=
  ["string", "integer", "number", "boolean", "array", "object"]

def hasNativeType (definition : Definition) : Bool :=
  match definition.typeName? with
  | some name => nativeTypeNames.contains name
  | none => false

def properties? (definition : Definition) : Option (Fields Json) :=
  (definition.get? "properties").bind Json.object?

def required (definition : Definition) : List String :=
  Json.strings ((definition.array? "required").getD [])

def enum? (definition : Definition) : Option (List Json) :=
  definition.array? "enum"

def items? (definition : Definition) : Option Json :=
  definition.get? "items"

def additionalProperties? (definition : Definition) : Option Json :=
  definition.get? "additionalProperties"

def format? (definition : Definition) : Option String :=
  definition.string? "format"

def pattern? (definition : Definition) : Option String :=
  definition.string? "pattern"

def description? (definition : Definition) : Option String :=
  definition.string? "description"

/-- What the `discriminator` keyword looks like. -/
def discriminatorShape : Json.Shape :=
  .record "Discriminator" false
    [("propertyName", true, .text), ("mapping", false, .optional (.map .text))]

def discriminator? (definition : Definition) : Except Error (Option Discriminator) :=
  match definition.get? "discriminator" with
  | none => .ok none
  | some raw =>
    match Json.conform discriminatorShape raw with
    | .ok checked =>
      .ok (some {
        property := ((checked.member? "propertyName").bind Json.string?).getD ""
        mapping := ((checked.member? "mapping").bind Json.object?).map fun references =>
          references.filterMap fun (key, reference) => reference.string?.map (key, ·) })
    | .error failure => .error (.unsupported "discriminator" (.discriminator failure))

/-- The properties that are required, and those that are not, each in the order of declaration. -/
def splitProperties (definition : Definition) : Fields Json × Fields Json :=
  let required := definition.required
  (definition.properties?.getD []).partition fun (name, _) => required.contains name

/-- Whether the part of an `allOf` is a condition. -/
def isCondition (part : Json) : Bool :=
  (part.member? "if").isSome && (part.member? "then").isSome

/-- The category of a definition. The first rule that applies decides. -/
def category (definition : Definition) : Except Error Category :=
  if definition.has "$ref" then .ok .passthrough
  else
    match definition.allOf?, definition.oneOf? with
    | some parts, _ => .ok (if parts.all isCondition then .polymorph else .multiInheritance)
    | none, some _ => .ok (if definition.has "discriminator" then .polymorph else .union)
    | none, none =>
      if definition.hasNativeType then
        match definition.typeName? with
        | some "object" => .ok .custom
        | some "array" => .ok .list
        | _ => .ok .native
      else if definition.enum?.isSome then .ok .enumeration
      else .error (.unidentified none definition.toJson)

/-- The category of a definition in which `properties` alone make an object type. -/
def shape (definition : Definition) : Except Error Category :=
  match definition.category with
  | .ok category => .ok category
  | .error error => if definition.properties?.isSome then .ok .custom else .error error

/-- The keywords that constrain anything. -/
def shapeKeywords : List String :=
  ["$ref", "allOf", "oneOf", "anyOf", "type", "enum", "properties", "items"]

def isUnconstrained (definition : Definition) : Bool :=
  !shapeKeywords.any definition.has

end Definition

/-- The category of any node of a document. -/
def Category.ofJson (json : Json) : Except Error Category := do
  (← Definition.ofJson json).category

end TypedSchema
