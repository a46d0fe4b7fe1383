import TypedSchema.Proofs.Types.Fits
import TypedSchema.Types.Registry

/-!
Names that lead somewhere. A name of a composite type or an enumeration is known when it is
registered as such and described, and a registry is closed when every name in its types, casters and
lists of parents is known.
-/

namespace TypedSchema

namespace Registry

/-- The name is registered as a composite type, which is described. -/
structure HasComposite (registry : Registry) (name : String) : Prop where
  registered : ∃ entry, Fields.get? registry.entries name = some entry ∧
    entry.type = .composite name
  described : ∃ composite, Fields.get? registry.composites name = some composite

/-- The name is registered as an enumeration, which is described. -/
structure HasEnumeration (registry : Registry) (name : String) : Prop where
  registered : ∃ entry, Fields.get? registry.entries name = some entry ∧
    entry.type = .enumeration name
  described : ∃ enumeration, Fields.get? registry.enumerations name = some enumeration

/-- What one registry has another one has as well. -/
structure Keeps (before after : Registry) : Prop where
  composites : ∀ name, before.HasComposite name → after.HasComposite name
  enumerations : ∀ name, before.HasEnumeration name → after.HasEnumeration name

end Registry

/-! ## Types and casters -/

/-- A type in which every name is known. -/
inductive TypeExpr.Known (registry : Registry) : TypeExpr → Prop where
  | any : Known registry .any
  | scalar (type : Scalar) : Known registry (.scalar type)
  | list {item : TypeExpr} (inner : Known registry item) : Known registry (.list item)
  | union {members : List TypeExpr} (each : ∀ member ∈ members, Known registry member) :
    Known registry (.union members)
  | optional {inner : TypeExpr} (known : Known registry inner) : Known registry (.optional inner)
  | enumeration {name : String} (present : registry.HasEnumeration name) :
    Known registry (.enumeration name)
  | composite {name : String} (present : registry.HasComposite name) :
    Known registry (.composite name)

/-- A caster in which every name is known, those in its branches included. -/
inductive Caster.Known (registry : Registry) : Caster → Prop where
  | identity : Known registry .identity
  | scalar (type : Scalar) : Known registry (.scalar type)
  | list {item : Caster} (inner : Known registry item) : Known registry (.list item)
  | enumeration {name : String} (present : registry.HasEnumeration name) :
    Known registry (.enumeration name)
  | composite {name : String} (present : registry.HasComposite name) :
    Known registry (.composite name)
  | polymorph {dispatcher : Dispatcher Caster}
    (each : ∀ branch ∈ dispatcher.branches, Known registry branch.caster) :
    Known registry (.polymorph dispatcher)

section

variable {registry before after : Registry} {type : TypeExpr}

theorem TypeExpr.Known.mono (keeps : before.Keeps after) (known : type.Known before) :
    type.Known after := by
  induction known with
  | any => exact .any
  | scalar type => exact .scalar type
  | list _ ih => exact .list ih
  | union _ ih => exact .union ih
  | optional _ ih => exact .optional ih
  | enumeration present => exact .enumeration (keeps.enumerations _ present)
  | composite present => exact .composite (keeps.composites _ present)

theorem TypeExpr.Known.orNull (known : type.Known registry) : type.orNull.Known registry := by
  cases known with
  | any => exact .any
  | optional inner => exact .optional inner
  | scalar type => exact .optional (.scalar type)
  | list inner => exact .optional (.list inner)
  | union each => exact .optional (.union each)
  | enumeration present => exact .optional (.enumeration present)
  | composite present => exact .optional (.composite present)

/-- A caster names nothing that the type it goes with does not name. -/
theorem Fits.known {plainUnions : Prop} {caster : Caster} (fits : Fits plainUnions type caster)
    (known : type.Known registry) : caster.Known registry := by
  induction fits with
  | any => exact .identity
  | scalar type => exact .scalar type
  | list _ ih =>
    cases known with
    | list inner => exact .list (ih inner)
  | union => exact .identity
  | optional _ ih =>
    cases known with
    | optional inner => exact ih inner
  | enumeration name =>
    cases known with
    | enumeration present => exact .enumeration present
  | composite name =>
    cases known with
    | composite present => exact .composite present
  | polymorph typeOf listed _ ih =>
    cases known with
    | union each =>
      exact .polymorph fun branch member => ih branch member (each _ (listed branch member))

end

/-! ## Tables -/

/-- The types that the table of a composite type declares are known. -/
structure Composite.TypesKnown (registry : Registry) (composite : Composite) : Prop where
  properties : ∀ property ∈ Fields.values composite.properties, property.type.Known registry
  catchAll : ∀ way, composite.catchAll = some way → way.type.Known registry

theorem Composite.TypesKnown.mono {before after : Registry} (keeps : before.Keeps after)
    {composite : Composite} (known : composite.TypesKnown before) :
    composite.TypesKnown after where
  properties := fun property member => (known.properties property member).mono keeps
  catchAll := fun way takes => (known.catchAll way takes).mono keeps

namespace Registry

/-- All types that are registered are known. -/
def EntriesKnown (registry : Registry) : Prop :=
  ∀ name entry, Fields.get? registry.entries name = some entry → entry.type.Known registry

/-- All types that are registered or declared are known. -/
structure TypesKnown (registry : Registry) : Prop where
  entries : registry.EntriesKnown
  tables : ∀ name composite, Fields.get? registry.composites name = some composite →
    composite.TypesKnown registry

/-- Every name of a composite type or an enumeration that occurs is registered and described: in
the types and casters of entries, properties and ways for further keys, in the lists of parents, and
in those that initializers run through. -/
structure Closed (registry : Registry) : Prop where
  entries : ∀ name entry, Fields.get? registry.entries name = some entry →
    entry.type.Known registry ∧ entry.caster.Known registry
  properties : ∀ name composite, Fields.get? registry.composites name = some composite →
    ∀ property ∈ Fields.values composite.properties,
      property.type.Known registry ∧ property.caster.Known registry
  catchAlls : ∀ name composite, Fields.get? registry.composites name = some composite →
    ∀ way, composite.catchAll = some way → way.type.Known registry ∧ way.caster.Known registry
  parents : ∀ name composite, Fields.get? registry.composites name = some composite →
    ∀ parent ∈ composite.parents, registry.HasComposite parent
  initializers : ∀ name composite, Fields.get? registry.composites name = some composite →
    ∀ signature parents, composite.initializer = .combined signature parents →
      ∀ parent ∈ parents, registry.HasComposite parent

end Registry

end TypedSchema
