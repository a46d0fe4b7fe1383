import TypedSchema.Compile.Resolve

/-!
The properties of object types. First every property that is an object in its place becomes a known
definition `owner_property`; then the properties of every object type are resolved and declared, the
required ones before the others.
-/

namespace TypedSchema.Compile

/-- Visits every object type, those included that become known on the way. The visit to a type makes
only types known whose definitions are nested in its own, so there are as many rounds as levels of
nesting. -/
def visitCustom (visit : String → Compile Unit) : Nat → Nat → Compile Unit
  | 0, visited => do
    if visited < ((← get).group .custom).length then throw .exhausted
  | rounds + 1, visited => do
    let pending := ((← get).group .custom).drop visited
    pending.forM visit
    visitCustom visit rounds (visited + pending.length)

/-- The definition of a schema that is an object type. -/
def objectType? (schema : Json) : Option Definition :=
  match Definition.ofJson schema with
  | .error _ => none
  | .ok definition =>
    if definition.isUnconstrained then none
    else
      match definition.shape with
      | .ok .custom => some definition
      | _ => none

def propertyHint (owner internal : String) : String :=
  owner ++ "_" ++ internal

/-- Makes a property known as a type of its own, if it is an object. -/
def discoverProperty (solve : Solver) (owner property : String) (schema : Json) :
    Compile Unit := do
  match objectType? schema with
  | none => return
  | some definition =>
    let name := propertyHint owner (Naming.pascalToSnake property []).1
    if !Fields.has (← get).known name then
      discard (resolveAnonymous solve name ⟨definition, .custom⟩)

def discover (solve : Solver) (owner : String) : Compile Unit := do
  let held ← (← get).find owner
  (held.definition.properties?.getD []).forM fun (property, schema) =>
    discoverProperty solve owner property schema

/-- The properties for schemas under their keys. All of them share the special names of their
naming. -/
def bindProperties (solve : Solver) (owner : String) (required : Bool) :
    List (String × Json) → SpecialNames → Compile (List Property × SpecialNames)
  | [], special => return ([], special)
  | (external, schema) :: rest, special => do
    let (name, special) := Naming.pascalToSnake external special
    let resolved ← resolveInline solve (propertyHint owner name) schema
    let property : Property :=
      if required then ⟨name, external, resolved.caster, resolved.type, .required⟩
      else ⟨name, external, resolved.caster, resolved.type.orNull, .value .null⟩
    let (properties, special) ← bindProperties solve owner required rest special
    return (property :: properties, special)

/-- How keys that are not declared are taken: not at all, unless the definition says so. -/
def bindCatchAll (solve : Solver) (owner : String) (definition : Definition) :
    Compile (Option CatchAll) := do
  match definition.additionalProperties? with
  | none | some (.bool false) => return none
  | some (.bool true) => return some ⟨.identity, .any⟩
  | some schema =>
    let resolved ← resolveInline solve (owner ++ "_AdditionalProperties") schema
    return some ⟨resolved.caster, resolved.type⟩

/-- Declares the properties of an object type. -/
def bind (solve : Solver) (name : String) : Compile Unit := do
  let definition := (← (← get).find name).definition
  let (required, optional) := definition.splitProperties
  let (first, special) ← bindProperties solve name true required []
  let (second, special) ← bindProperties solve name false optional special
  let catchAll ← bindCatchAll solve name definition
  let composite ← (← get).registry.composite name
  let declared := (first ++ second).foldl Composite.addProperty
    { composite with special := composite.special.union special }
  let complete := if catchAll.isSome then declared.setCatchAll catchAll else declared
  modify fun workspace => { workspace with registry := workspace.registry.setComposite complete }

end TypedSchema.Compile
