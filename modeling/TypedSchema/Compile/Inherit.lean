import TypedSchema.Types.Registry

/-!
Completing the types that inherit. A type that stands for another takes over its parent's table; a
type with several parents merges theirs in order, where a later declaration takes the place of an
earlier one. Parents are completed before their heirs.
-/

namespace TypedSchema.Compile

/-- The registry, and the names in it whose types are complete. -/
structure Inherited where
  registry : Registry
  complete : List String := []

abbrev Inherit := StateT Inherited (Except Error)

/-- The type with everything that its parent has. -/
def inheritAll (parent composite : Composite) : Composite :=
  { composite with
    properties := parent.properties
    catchAll := parent.catchAll
    initializer := parent.initializer.renamed composite.name
    special := composite.special.union parent.special }

/-- The type with what its parents declare. -/
def merge (parents : List Composite) (composite : Composite) : Composite :=
  let properties := parents.foldl (fun sofar parent =>
    Fields.insertAll sofar parent.properties) []
  let catchAll := parents.foldl (fun sofar parent => parent.catchAll.or sofar) none
  { composite with
    properties
    catchAll
    initializer := .combined ⟨composite.name, Fields.values properties, catchAll⟩
      (parents.map Composite.name)
    special := parents.foldl (fun sofar parent => sofar.union parent.special) composite.special }

/-- The type as it inherits from the parents in a registry. -/
def inherit (registry : Registry) (composite : Composite) : Except Error Composite := do
  match composite.lineage with
  | .custom => return composite
  | .passthrough parent => return inheritAll (← registry.composite parent) composite
  | .combined parents => return merge (← parents.mapM registry.composite) composite

/-- Completes a type after its parents. `heirs` are the types that wait for it. -/
def complete : Nat → List String → String → Inherit Unit
  | 0, _, _ => throw .exhausted
  | generations + 1, heirs, name => do
    if (← get).complete.contains name then return
    if heirs.contains name then throw (.circularReference name)
    let composite ← (← get).registry.composite name
    composite.parents.forM (complete generations (name :: heirs))
    let completed ← inherit (← get).registry composite
    modify fun inherited => {
      registry := inherited.registry.setComposite completed
      complete := name :: inherited.complete }

/-- Completes those of the names that are composite types. -/
def completeAll (names : List String) (registry : Registry) : Except Error Registry := do
  let heirs := names.filter (Fields.has registry.composites)
  let ((), inherited) ←
    (heirs.forM (complete (registry.composites.length + 1) [])).run { registry }
  return inherited.registry

end TypedSchema.Compile
