import TypedSchema.Decode.Construct
import TypedSchema.Decode.Dispatch
import TypedSchema.Decode.Scalar

/-!
Casting values. Each layer takes one caster off; the layers below it are reached through list items,
branches and the properties of objects. Data gets smaller on the way into an object and casters get
smaller otherwise, so a number of layers computed from both is enough.
-/

namespace TypedSchema

namespace Decode

/-- Casts the items of a list, which start at an index. -/
def castItems (cast : Cast) (caster : Caster) : Nat → List Value → Decode (List Value)
  | _, [] => return []
  | index, item :: rest => do
    let item ← ExceptT.adapt (fun refusal => (refusal.toError (.item caster)).atIndex index)
      (cast caster item)
    return item :: (← castItems cast caster (index + 1) rest)

/-- Casts the data of an object with the branch that it selects. -/
def discriminate (cast : Cast) (dispatcher : Dispatcher Caster) (data : Fields Value) :
    Decode Value := do
  let branch ← dispatcher.select data
  ExceptT.adapt (Refusal.toError fun mismatch => .branch branch.target mismatch.value)
    (cast branch.caster (.map data))

/-- The plain form of the attributes of an object, with the special names so far. -/
def plainEntries (registry : Registry) (type : String) (attributes : Fields Value) :
    StateM NameTable (Fields Value) :=
  return Value.toEntries (registry.keyOf (← get)) type attributes

/-- Casts to an object of a composite type. An object of another type is taken as plain data. -/
def castComposite (registry : Registry) (cast : Cast) (name : String) (value : Value) :
    Attempt Value :=
  match value with
  | .object type attributes =>
    if registry.isSubtype type name then return value
    else
      ExceptT.adapt Refusal.nested do
        let composite ← registry.compositeNamed name
        fromEntries registry cast composite (← plainEntries registry type attributes)
  | .map entries =>
    ExceptT.adapt Refusal.nested do
      fromEntries registry cast (← registry.compositeNamed name) entries
  | other => throw (.mismatch ⟨other, none⟩)

/-- One layer of a cast, given those below it. -/
def castLayer (registry : Registry) (cast : Cast) (caster : Caster) (value : Value) :
    Attempt Value :=
  match caster with
  | .identity => return value
  | .scalar type =>
    match castScalar type value with
    | some value => return value
    | none => throw (.mismatch ⟨value, none⟩)
  | .list item =>
    match value with
    | .list items => return .list (← ExceptT.adapt Refusal.nested (castItems cast item 0 items))
    | other => throw (.mismatch ⟨other, none⟩)
  | .enumeration name =>
    match registry.enumeration name with
    | .error error => throw (.nested error)
    | .ok enumeration =>
      match enumeration.lookup? value with
      | some member => return .member member
      | none => throw (.mismatch ⟨value, some name⟩)
  | .composite name => castComposite registry cast name value
  | .polymorph dispatcher =>
    match value with
    | .object type _ =>
      if dispatcher.targets.any (registry.isSubtype type) then return value
      else throw (.mismatch ⟨value, none⟩)
    | .map data => ExceptT.adapt Refusal.nested (discriminate cast dispatcher data)
    | other => throw (.mismatch ⟨other, none⟩)

/-- A cast of at most so many layers. -/
def castWith (registry : Registry) : Nat → Cast
  | 0 => fun _ _ => throw (.nested .exhausted)
  | layers + 1 => castLayer registry (castWith registry layers)

/-- The height of the highest caster of a property. -/
def propertyHeight (composite : Composite) : Nat :=
  let catchAll := (composite.catchAll.map fun catchAll => catchAll.caster.height).getD 0
  (Fields.values composite.properties).foldl (fun sofar property =>
    max sofar property.caster.height) catchAll

/-- The height of the highest caster of a registry. -/
def casterHeight (registry : Registry) : Nat :=
  (Fields.values registry.composites).foldl (fun sofar composite =>
    max sofar (propertyHeight composite)) 0

/-- How many layers the cast of a value can have. -/
def layers (registry : Registry) (caster : Caster) (value : Value) : Nat :=
  caster.height + value.rank * (casterHeight registry + 1) + 1

/-- The cast of a value, given enough layers for this one. -/
def castFor (registry : Registry) (caster : Caster) (value : Value) : Cast :=
  castWith registry (layers registry caster value)

end Decode

namespace Registry

open Decode

/-- Casts a value. -/
def cast (registry : Registry) (caster : Caster) (value : Value) : Decode Value :=
  ExceptT.adapt (Refusal.toError (.value caster)) (castFor registry caster value caster value)

/-- Casts a value as a registered name asks for. -/
def instantiate (registry : Registry) (name : String) (value : Value) : Decode Value := do
  registry.cast (← registry.entry name).caster value

/-- Runs the dispatcher of a polymorph. -/
def discriminate (registry : Registry) (name : String) (value : Value) : Decode Value := do
  let entry ← registry.entry name
  match entry.caster, value with
  | .polymorph dispatcher, .map data =>
    Decode.discriminate (castFor registry entry.caster value) dispatcher data
  | .polymorph _, other => throw (.type [] [] (.notDiscriminable name other))
  | _, _ => throw (.type [] [] (.notPolymorph name))

/-- Constructs an object of a named composite type from attributes. -/
def construct (registry : Registry) (name : String) (arguments : Arguments) : Decode Value := do
  let composite ← registry.compositeNamed name
  let values := arguments.positional ++ Fields.values arguments.keyword
  Decode.construct registry (castFor registry (.composite name) (.list values)) composite arguments

/-- An object of a composite type from an object or plain data. -/
def convert (registry : Registry) (composite : Composite) (value : Value) : Decode Value :=
  let cast := castFor registry (.composite composite.name) value
  match value with
  | .map entries => fromEntries registry cast composite entries
  | .object type attributes => do
    if registry.isSubtype type composite.name then return value
    else fromEntries registry cast composite (← Decode.plainEntries registry type attributes)
  | other =>
    throw ((Error.type [] [] (.notConvertible composite.name other)).withinType composite.name)

/-- Decodes a value as a named composite type. -/
def decode (registry : Registry) (name : String) (value : Value) : Decode Value := do
  registry.convert (← registry.compositeNamed name) value

/-- Decodes what was read from a text as a named composite type. -/
def decodeRead (registry : Registry) (name : String) (read : Except Json.Failure Json) :
    Decode Value := do
  let composite ← registry.compositeNamed name
  match read with
  | .ok json => registry.convert composite (.ofJson json)
  | .error failure => throw (.json failure)

end Registry

end TypedSchema
