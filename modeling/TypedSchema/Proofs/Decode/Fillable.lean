import TypedSchema.Proofs.Decode.Casting

/-!
Filling with values of a kind. Binding hands on the arguments and the defaults, which are null, so
if the arguments are of a kind that null is of, every value that is coerced is of this kind.
-/

namespace TypedSchema

namespace Decode

variable {registry : Registry} {cast : Cast} {holds : Value → Prop} {good : Decode Value → Prop}

/-- A signature for which values of a kind are coerced in a way that is good. -/
structure Fillable (registry : Registry) (cast : Cast) (holds : Value → Prop)
    (good : Decode Value → Prop) (signature : Signature) : Prop where
  params : signature.DistinctParams
  defaults : signature.DefaultsHold holds
  declared : ∀ param ∈ signature.params, ∀ value, holds value →
    good (coerce registry cast param.name param.type param.caster value)
  extra : ∀ way, signature.catchAll = some way → ∀ name value, holds value →
    good (coerce registry cast name way.type way.caster value)

/-- Every composite type is such that coercing for its properties and its further keys is good. -/
theorem fillable (wellFormed : registry.WellFormed) {name : String} {composite : Composite}
    (present : Fields.get? registry.composites name = some composite) (null : holds .null)
    (declared : ∀ property ∈ Fields.values composite.properties, ∀ value, holds value →
      good (coerce registry cast property.name property.type property.caster value))
    (extra : ∀ way, composite.catchAll = some way → ∀ name value, holds value →
      good (coerce registry cast name way.type way.caster value)) :
    Fillable registry cast holds good composite.signature := by
  have own := (wellFormed.composites name composite present).2
  constructor
  case params => exact own.distinctParams
  case defaults => exact own.defaultsHold null
  case declared =>
    rw [own.params]
    exact declared
  case extra =>
    rw [own.catchAll]
    exact extra

/-- The values of the entries are those of the keywords that they are read as. -/
theorem keywords_hold {composite : Composite} {entries : Fields Value} {names : NameTable}
    (hold : ∀ entry ∈ entries, holds entry.2) :
    Arguments.Hold holds { keyword := Fields.ofList (keywords composite entries names).1 } := by
  refine ⟨nofun, fun entry member => ?_⟩
  have listed := (Fields.mem_insertAll member).resolve_right List.not_mem_nil
  obtain ⟨key, held⟩ := keywords_value_mem listed
  exact hold (key, entry.2) held

end Decode

end TypedSchema
