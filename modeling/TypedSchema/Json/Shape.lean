import TypedSchema.Json.Skip

/-!
Shapes that a part of a document is expected to have. A value is checked against a shape after it
was read, or while its text is being read; both ways give the same document, in which records hold
just the members that the shape asks for. A text is refused at its first fault, be it in the writing
or in the shape.
-/

namespace TypedSchema.Json

/-- An open record keeps all its members. A closed one drops those without a shape, and may also be
written as a list of its fields in order. -/
inductive Shape where
  | anything
  | text
  | optional (shape : Shape)
  | map (values : Shape)
  | record (name : String) (isOpen : Bool) (fields : List (String × Bool × Shape))

namespace Shape

/-- What a shape is called where another value was found. -/
def expected : Shape → String
  | .anything => "a value"
  | .text => "a string"
  | .optional shape => shape.expected
  | .map _ => "a map"
  | .record name _ _ => s!"struct {name}"

abbrev Check := Route → Json → Except Failure Json

def refuse {α : Type} (fault : Fault) : Except Failure α :=
  .error { fault }

/-- A field of a record: its name, whether a record must have it, and how its value is handled. -/
structure Field (δ : Type) where
  name : String
  required : Bool
  handle : δ

def missing? {δ : Type} (fields : List (Field δ)) (held : Fields Json) : Option String :=
  (fields.find? fun field => field.required && !Fields.has held field.name).map Field.name

/-- The members of a record, each handled by its field. -/
def checkMembers (isOpen : Bool) (fields : List (Field Check)) (route : Route) :
    List (String × Json) → Except Failure (Fields Json)
  | [] => return []
  | (name, value) :: rest => do
    let handled ←
      match fields.find? (fun field => field.name = name) with
      | some field =>
        let place := route ++ [.member name]
        let value ← (field.handle place value).mapError (Failure.along place)
        pure [(name, value)]
      | none => pure (if isOpen then [(name, value)] else [])
    return handled ++ (← checkMembers isOpen fields route rest)

/-- The items of a list that stand for the fields in order; fields at the end may be missing if they
are not required. -/
def checkPositions (record : String) (total : Nat) (route : Route) :
    Nat → List (Field Check) → List Json → Except Failure (Fields Json)
  | _, [], _ => return []
  | index, field :: fields, [] =>
    if field.required then
      refuse (.wrongLength index s!"struct {record} with {total} elements")
    else checkPositions record total route index fields []
  | index, field :: fields, value :: rest => do
    let place := route ++ [.item index]
    let value ← (field.handle place value).mapError (Failure.along place)
    return (field.name, value) :: (← checkPositions record total route (index + 1) fields rest)

def checkRecord (name : String) (isOpen : Bool) (fields : List (Field Check)) : Check
  | route, .object members => do
    let held ← checkMembers isOpen fields route members
    match missing? fields held with
    | some name => refuse (.missingField name)
    | none => return .object held
  | route, .array items =>
    if isOpen then refuse (.wrongKind (.array items) s!"struct {name}")
    else do
      let held ← checkPositions name fields.length route 0 fields items
      if fields.length < items.length then
        refuse (.wrongLength items.length "fewer elements in array")
      else return .object held
  | _, found => refuse (.wrongKind found s!"struct {name}")

def checkValues (check : Check) (route : Route) :
    List (String × Json) → Except Failure (Fields Json)
  | [] => return []
  | (name, value) :: rest => do
    let place := route ++ [.member name]
    let value ← (check place value).mapError (Failure.along place)
    return (name, value) :: (← checkValues check route rest)

mutual
/-- The value with a shape, as far as it is asked for. -/
def check : Shape → Check
  | .anything, _, value => return value
  | .text, _, .string value => return .string value
  | .text, _, found => refuse (.wrongKind found "a string")
  | .optional _, _, .null => return .null
  | .optional shape, route, value => check shape route value
  | .map values, route, .object members =>
    return .object (← checkValues (check values) route members)
  | .map _, _, found => refuse (.wrongKind found "a map")
  | .record name isOpen fields, route, value =>
    checkRecord name isOpen (checkFields fields) route value

def checkFields : List (String × Bool × Shape) → List (Field Check)
  | [] => []
  | (name, required, shape) :: rest => ⟨name, required, check shape⟩ :: checkFields rest
end

/-! ## While the text is read -/

abbrev Scan := Nat → Route → Reader Json

open Reader

/-- A fault of the value that was just read, or that a bracket opens. -/
def wrongKindNext (expected : String) : Reader Json := do
  match ← peekValue with
  | none => failNext .endOfValue
  | some first =>
    if first = 91 then fail (.wrongKind (.array []) expected)
    else if first = 123 then fail (.wrongKind (.object []) expected)
    else
      let found ← scalar first
      fail (.wrongKind found expected)

/-- A second member of the same name, found behind its name. -/
def repeated {α : Type} (name : String) : Reader α := do
  if (← peekValue) = some 125 then advance
  fail (.duplicateField name)

/-- The members of a record up to the closing brace; `seen` are the fields met so far. -/
def scanMembers (isOpen : Bool) (fields : List (Field Scan)) (nesting : Nat) (route : Route) :
    Nat → Bool → Fields Json → Reader (Fields Json)
  | 0, _, _ => fail .endOfObject
  | steps + 1, first, held => do
    match ← memberName route first with
    | none =>
      advance
      return held
    | some name =>
      let place := route ++ [.member name]
      match fields.find? (fun field => field.name = name) with
      | some field =>
        if Fields.has held name then repeated name
        else
          colon
          let value ← along place (field.handle nesting place)
          scanMembers isOpen fields nesting route steps false (Fields.insert held name value)
      | none =>
        colon
        if isOpen then
          let value ← along place (Reader.value nesting place)
          scanMembers isOpen fields nesting route steps false (Fields.insert held name value)
        else
          along place skip
          scanMembers isOpen fields nesting route steps false held

/-- The closing bracket of a list that has no more items to read. -/
def closeList : Reader Unit := do
  match ← peekValue with
  | some 93 => advance
  | some 44 =>
    advance
    match ← peekValue with
    | some 93 => failNext .trailingComma
    | _ => failNext .trailingCharacters
  | some _ => failNext .trailingCharacters
  | none => failNext .endOfList

def scanPositions (record : String) (total nesting : Nat) (route : Route) :
    Nat → List (Field Scan) → Reader (Fields Json)
  | _, [] => do
    closeList
    return []
  | index, field :: fields => do
    if ← moreItems (index = 0) then
      let place := route ++ [.item index]
      let value ← along place (field.handle nesting place)
      return (field.name, value) ::
        (← scanPositions record total nesting route (index + 1) fields)
    else if field.required then
      advance
      fail (.wrongLength index s!"struct {record} with {total} elements")
    else
      advance
      return []

def scanRecord (name : String) (isOpen : Bool) (fields : List (Field Scan)) : Scan :=
  fun nesting route => do
    let first ← peekValue
    if first = some 123 || first = some 91 && !isOpen then
      match nesting with
      | 0 => failNext .tooDeep
      | nesting + 1 =>
        advance
        if first = some 91 then
          return .object (← scanPositions name fields.length nesting route 0 fields)
        else
          let held ← scanMembers isOpen fields nesting route (← bound) true []
          match missing? fields held with
          | some name => fail (.missingField name)
          | none => return .object held
    else wrongKindNext s!"struct {name}"

mutual
/-- Reads a value with a shape. -/
def scan : Shape → Scan
  | .anything => Reader.value
  | .text => fun _ _ => do
    if (← peekValue) = some 34 then
      advance
      return .string (← stringRest)
    else wrongKindNext "a string"
  | .optional shape => fun nesting route => do
    if (← peekValue) = some 110 then scalar 110 else scan shape nesting route
  | .map values => fun nesting route => do
    if (← peekValue) = some 123 then
      match nesting with
      | 0 => failNext .tooDeep
      | nesting + 1 =>
        advance
        return .object (← members (scan values nesting) route (← bound) true [])
    else wrongKindNext "a map"
  | .record name isOpen fields => scanRecord name isOpen (scanFields fields)

def scanFields : List (String × Bool × Shape) → List (Field Scan)
  | [] => []
  | (name, required, shape) :: rest => ⟨name, required, scan shape⟩ :: scanFields rest
end

end Shape

/-- The value with a shape; a failure knows its way from the root. -/
def conform (shape : Shape) (json : Json) : Except Failure Json :=
  (shape.check [] json).mapError (Failure.along [])

/-- The value with a shape at the start of a text. -/
def scanText (shape : Shape) (cursor : Cursor) : Except Failure Json :=
  (((shape.scan Reader.nestingLimit []).run cursor).map Prod.fst).mapError (Failure.along [])

end TypedSchema.Json
