import TypedSchema.Proofs.Decode.Refilling
import TypedSchema.Proofs.FaithfulBinding

/-!
What the registry of a document consists of. Every definition is registered as it stands, and no type
is left as it was declared at first: an object type is bound to its definition, a type that inherits
has the table of its parents, and each goes by the signature that its own table makes.
-/

namespace TypedSchema

/-! ## Signatures and keys -/

/-- A type with a signature of its own, made of its table, and whose declared keys and attributes lead
to each other, whatever names have become special. -/
structure Composite.Consistent (name : String) (composite : Composite) : Prop where
  named : composite.name = name
  owner : composite.signature.owner = name
  params : (composite.signature.params.map fun param => (param.name, param)) = composite.properties
  catchAll : composite.signature.catchAll = composite.catchAll
  externals : ((Fields.values composite.properties).map Property.external).Nodup
  internalName : ∀ property ∈ Fields.values composite.properties, ∀ special,
    composite.internalName property.external special = (property.name, special)
  externalName : ∀ property ∈ Fields.values composite.properties, ∀ special,
    composite.externalName property.name special = property.external

namespace Composite.WellFormed

variable {registry : Registry} {composite : Composite} {property : Property}

/-- Attributes are converted keys, so different attributes have different keys. -/
theorem distinctExternals (wellFormed : composite.WellFormed registry) :
    ((Fields.values composite.properties).map Property.external).Nodup := by
  have attributes : ((Fields.values composite.properties).map Property.name).Nodup := by
    have distinct := wellFormed.distinctParams
    rwa [Signature.DistinctParams, wellFormed.params] at distinct
  have converted : (Fields.values composite.properties).map Property.name =
      ((Fields.values composite.properties).map Property.external).map Naming.snake := by
    rw [List.map_map]
    apply List.map_congr_left
    intro property member
    exact (wellFormed.properties _ _ (wellFormed.property_of_mem member)).snake
  rw [converted] at attributes
  exact List.Nodup.of_map _ attributes

theorem declaring?_of_mem (wellFormed : composite.WellFormed registry)
    (member : property ∈ Fields.values composite.properties) :
    composite.declaring? property.external = some property := by
  cases found : composite.declaring? property.external with
  | none => exact absurd rfl (declaring?_eq_none_iff.mp found property member)
  | some other =>
    -- Keys are listed once.
    have same := List.inj_on_of_nodup_map wellFormed.distinctExternals (declaring?_mem found) member
      (declaring?_external found)
    rw [same]

theorem internalName_external (wellFormed : composite.WellFormed registry)
    (member : property ∈ Fields.values composite.properties) (special : SpecialNames) :
    composite.internalName property.external special = (property.name, special) :=
  internalName_of_declared (wellFormed.declaring?_of_mem member) special

theorem externalName_name (wellFormed : composite.WellFormed registry)
    (member : property ∈ Fields.values composite.properties) (special : SpecialNames) :
    composite.externalName property.name special = property.external := by
  rw [Composite.externalName, Composite.property?, wellFormed.property_of_mem member]

end Composite.WellFormed

/-! ## Tables of types that inherit -/

/-- The table of a type that inherits is the one of its parent, or put together from those of its
parents in order, where the last way for keys that are not declared counts. -/
def Composite.Follows (registry : Registry) (composite : Composite) : Prop :=
  match composite.lineage with
  | .custom => True
  | .passthrough parent =>
    ∃ above, registry.composite parent = .ok above ∧
      composite.properties = above.properties ∧ composite.catchAll = above.catchAll
  | .combined parents =>
    ∃ aboves, List.Forall₂ (fun parent above => registry.composite parent = .ok above)
        parents aboves ∧
      composite.properties = Fields.ofList (aboves.flatMap Composite.properties) ∧
      composite.catchAll = (aboves.filterMap Composite.catchAll).getLast?

namespace Compile

theorem Inherits.owner {lookup : String → Option Composite} {composite : Composite}
    (inherits : Inherits lookup composite) : composite.signature.owner = composite.name := by
  unfold Composite.signature
  cases inherits with
  | custom _ direct => rw [direct]; rfl
  | @passthrough _ above _ _ _ _ _ _ initializer =>
    rw [initializer]
    cases above.initializer with
    | direct => rfl
    | combined => rfl
  | combined _ _ _ _ _ initializer => rw [initializer]; rfl

theorem Inherits.follows {registry : Registry} {composite : Composite}
    (inherits : Inherits (Fields.get? registry.composites) composite) :
    composite.Follows registry := by
  unfold Composite.Follows
  cases inherits with
  | custom lineage =>
    rw [lineage]
    trivial
  | passthrough lineage present _ properties catchAll =>
    rw [lineage]
    exact ⟨_, Registry.found_ok.mpr present, properties, catchAll⟩
  | combined lineage present _ properties catchAll =>
    rw [lineage]
    rw [Composite.mergedProperties_eq] at properties
    rw [Composite.mergedCatchAll_eq] at catchAll
    exact ⟨_, present.imp fun _ _ found => Registry.found_ok.mpr found, properties, catchAll⟩

/-! ## Definitions -/

/-- The definitions of a document are registered under their names, as they are and in their own
categories: what is made besides takes none of their places. -/
theorem compile_listed {document : Document} {registry : Registry}
    (compiled : document.compile = .ok registry)
    {name : String} {definition : Definition} (listed : (name, definition) ∈ document.definitions) :
    ∃ entry, Fields.get? registry.entries name = some entry ∧ entry.name = name ∧
      entry.definition = definition ∧ definition.shape = .ok entry.category := by
  obtain ⟨known, workspace, complete, classified, filled, completed, rfl⟩ :=
    compile_eq_ok.mp compiled
  obtain ⟨start, -⟩ := classify_ok classified
  have filling := fill_ok start rfl filled
  obtain ⟨⟨own, held⟩, member, same, definitions, shape⟩ :=
    Lists.result_of_source (classify_each classified) listed
  cases same
  -- What is found later is known behind the definitions of the document.
  obtain ⟨found, others⟩ := filling.known
  have kept : Fields.get? workspace.known name = some held := by
    rw [← others, Fields.get?_append, Fields.get?_of_mem start.distinct member, Option.some_or]
  obtain ⟨entry, present⟩ :=
    Fields.mem_names_iff.mp (filling.registered name (Fields.name_mem member))
  have sound := filling.sound.entries name entry present
  obtain ⟨origin, known, sameDefinition, sameCategory⟩ := sound.origin
  rw [kept] at known
  cases known
  refine ⟨entry, ?_, sound.made.named, sameDefinition.trans definitions, sameCategory ▸ shape⟩
  have entries := (completeAll_ok filling.sound.starting completed).entries
  exact entries ▸ present

end Compile

open Compile

/-- A registry in which every definition of a document has its place, every object type is bound to
its definition, and every type is consistent and has the table that its lineage gives it. -/
structure Registry.Consistent (document : Document) (registry : Registry) : Prop where
  listed : ∀ name definition, (name, definition) ∈ document.definitions →
    ∃ entry, registry.entry name = .ok entry ∧ entry.name = name ∧
      entry.definition = definition ∧ definition.shape = .ok entry.category
  objects : ∀ name entry, registry.entry name = .ok entry → entry.category = .custom →
    ∃ composite, registry.composite name = .ok composite ∧ composite.lineage = .custom ∧
      BoundTo document registry name entry.definition composite
  composites : ∀ name composite, registry.composite name = .ok composite →
    composite.Consistent name ∧ composite.Follows registry

namespace Document

/-- Whatever compiles gives a consistent registry. -/
theorem compile_consistent {document : Document} {registry : Registry}
    (compiled : document.compile = .ok registry) : registry.Consistent document := by
  obtain ⟨workspace, made⟩ := compile_ok compiled
  constructor
  case listed =>
    intro name definition listed
    obtain ⟨entry, present, own⟩ := compile_listed compiled listed
    exact ⟨entry, Registry.found_ok.mpr present, own⟩
  case objects =>
    intro name entry found category
    obtain ⟨composite, present, custom, bound⟩ :=
      made.bound_of_made ⟨entry, Registry.found_ok.mp found, rfl, category⟩
    exact ⟨composite, Registry.found_ok.mpr present, custom, bound⟩
  case composites =>
    intro name composite found
    have present := Registry.found_ok.mp found
    have inherits := made.inherits present
    obtain ⟨named, wellFormed⟩ := made.wellFormed.composites name composite present
    refine ⟨?_, inherits.follows⟩
    exact {
      named
      owner := inherits.owner.trans named
      params := wellFormed.params_keyed
      catchAll := wellFormed.catchAll
      externals := wellFormed.distinctExternals
      internalName := fun _ member => wellFormed.internalName_external member
      externalName := fun _ member => wellFormed.externalName_name member }

/-- Badges are made for guests, who are persons and take any further numbers. -/
def badges : Document where
  definitions := [
    ("Badge", ⟨[("$ref", .string "#/$defs/Guest")]⟩),
    ("Guest", ⟨[
      ("allOf", .array [
        .object [("$ref", .string "#/$defs/Person")],
        .object [
          ("type", .string "object"),
          ("additionalProperties", .object [("type", .string "integer")])]])]⟩),
    ("Person", ⟨[
      ("type", .string "object"),
      ("properties", .object [("FullName", .object [("type", .string "string")])]),
      ("required", .array [.string "FullName"])]⟩)]

theorem compile_consistent_badges :
    ∃ registry badge, badges.compile = .ok registry ∧
      registry.Consistent badges ∧ registry.composite "Badge" = .ok badge ∧
      Fields.names badge.properties = ["full_name"] ∧ badge.signature.acceptsExtra = true ∧
      badge.internalName "FullName" ["FullName"] = ("full_name", ["FullName"]) := by
  have table : ∃ registry ∈ badges.compile.toOption,
      ∃ badge ∈ (registry.composite "Badge").toOption,
        Fields.names badge.properties = ["full_name"] ∧ badge.catchAll.isSome = true ∧
        ∃ property ∈ Fields.values badge.properties,
          property.external = "FullName" ∧ property.name = "full_name" := by
    decide +kernel
  obtain ⟨registry, made, badge, found, names, takes, property, member, external, name⟩ := table
  have compiled := Outcomes.toOption_iff.mp made
  have present := Outcomes.toOption_iff.mp found
  have consistent := compile_consistent compiled
  obtain ⟨own, -⟩ := consistent.composites "Badge" badge present
  refine ⟨registry, badge, compiled, consistent, present, names, ?_, ?_⟩
  · rw [Signature.acceptsExtra, own.catchAll]
    exact takes
  · rw [← external, ← name]
    exact own.internalName property member _

end Document

end TypedSchema
