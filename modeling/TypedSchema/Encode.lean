import TypedSchema.Types.Registry

/-!
Values as plain data and as documents. Attributes are written under their keys, which the type of
the object and the special names at the boundary of its data decide.
-/

namespace TypedSchema

/-- The special names of each composite type, which grow while data is decoded. -/
abbrev NameTable := Fields SpecialNames

namespace Registry

/-- The special names that the types start with. -/
def names (registry : Registry) : NameTable :=
  Fields.mapValues Composite.special registry.composites

end Registry

namespace NameTable

def of (names : NameTable) (type : String) : SpecialNames :=
  (Fields.get? names type).getD []

end NameTable

/-- The key under which an attribute of a type is written. -/
abbrev KeyOf := String → String → String

/-- The keys of a registry, given the special names so far. -/
def Registry.keyOf (registry : Registry) (names : NameTable) : KeyOf := fun type internal =>
  match Fields.get? registry.composites type with
  | some composite => composite.externalName internal (names.of type)
  | none => Naming.snakeToPascal internal (names.of type)

namespace Value

mutual
/-- The plain form: objects and members become maps or literals. -/
def toPlain (keyOf : KeyOf) : Value → Value
  | .object type attributes => .map (Fields.ofList (plainAttributes keyOf type attributes))
  | .member held => held.toPlain
  | .list items => .list (plainItems keyOf items)
  | .map entries => .map (plainEntries keyOf entries)
  | value => value

def plainItems (keyOf : KeyOf) : List Value → List Value
  | [] => []
  | item :: rest => toPlain keyOf item :: plainItems keyOf rest

def plainEntries (keyOf : KeyOf) : List (String × Value) → List (String × Value)
  | [] => []
  | (name, value) :: rest => (name, toPlain keyOf value) :: plainEntries keyOf rest

def plainAttributes (keyOf : KeyOf) (type : String) :
    List (String × Value) → List (String × Value)
  | [] => []
  | (name, value) :: rest =>
    (keyOf type name, toPlain keyOf value) :: plainAttributes keyOf type rest
end

/-- The plain form of an object, keyed as in documents. -/
def toEntries (keyOf : KeyOf) (type : String) (attributes : Fields Value) : Fields Value :=
  Fields.ofList (plainAttributes keyOf type attributes)

/-- A number that is not finite has no place in a document. -/
def numberToJson (value : Binary64) : Except Error Json :=
  if value.isFinite then .ok (.float value) else .error (.encode [] (.notFinite value))

mutual
/-- What a document becomes when it is lifted to plain data and encoded again: an integer outside 64
bits comes back as a number. -/
def relift : Json → Except Error Json
  | .integer value =>
    if isInteger value then .ok (.integer value)
    else numberToJson (.ofInt value)
  | .float value => numberToJson value
  | .array items => return .array (← reliftItems 0 items)
  | .object members => return .object (Fields.ofList (← reliftMembers members))
  | other => .ok other

def reliftItems (index : Nat) : List Json → Except Error (List Json)
  | [] => .ok []
  | item :: rest => do
    let item ← (relift item).mapError (Error.atIndex index)
    return item :: (← reliftItems (index + 1) rest)

def reliftMembers : List (String × Json) → Except Error (List (String × Json))
  | [] => .ok []
  | (name, value) :: rest => do
    let value ← (relift value).mapError (Error.atField name)
    return (name, value) :: (← reliftMembers rest)
end

/-- A member as its literal, or as the record of its id and description. -/
def memberToJson (member : Member) : Except Error Json :=
  match member.literal with
  | some literal => relift literal
  | none => .ok (.object [("Id", .string member.id),
      ("Description", (member.description.map Json.string).getD .null)])

mutual
/-- The document that a value is written as. -/
def toJson (keyOf : KeyOf) : Value → Except Error Json
  | .null => .ok .null
  | .bool value => .ok (.bool value)
  | .integer value => .ok (.integer value.toInt)
  | .number value => numberToJson value
  | .string value => .ok (.string value)
  | .timestamp value => .ok (.string value.text)
  | .uuid value => .ok (.string value.text)
  | .list items => return .array (← itemsToJson keyOf 0 items)
  | .map entries => return .object (Fields.ofList (← entriesToJson keyOf entries))
  | .object type attributes =>
    return .object (Fields.ofList (← attributesToJson keyOf type attributes))
  | .member held => memberToJson held

def itemsToJson (keyOf : KeyOf) (index : Nat) : List Value → Except Error (List Json)
  | [] => .ok []
  | item :: rest => do
    let item ← (toJson keyOf item).mapError (Error.atIndex index)
    return item :: (← itemsToJson keyOf (index + 1) rest)

def entriesToJson (keyOf : KeyOf) : List (String × Value) → Except Error (List (String × Json))
  | [] => .ok []
  | (name, value) :: rest => do
    let value ← (toJson keyOf value).mapError (Error.atField name)
    return (name, value) :: (← entriesToJson keyOf rest)

def attributesToJson (keyOf : KeyOf) (type : String) :
    List (String × Value) → Except Error (List (String × Json))
  | [] => .ok []
  | (name, value) :: rest => do
    let key := keyOf type name
    let value ← (toJson keyOf value).mapError (Error.atField key)
    return (key, value) :: (← attributesToJson keyOf type rest)
end

end Value

end TypedSchema
