import TypedSchema.Proofs.Decode.Filling
import TypedSchema.Proofs.Types.Fits

/-!
What holds of the tables of a registry that was compiled: names are their own keys, attributes are
the conversions of keys, types and casters fit each other, and the table of a type with parents is
put together from theirs.
-/

namespace TypedSchema

/-! ## Enumerations -/

structure Member.WellFormed (enumeration name : String) (member : Member) : Prop where
  enumeration : member.enumeration = enumeration
  name : member.name = name
  /-- A literal is never null, and gives the id. -/
  literal : ∀ literal, member.literal = some literal →
    literal ≠ .null ∧ member.id = Enumeration.idOfJson literal

structure Enumeration.WellFormed (enumeration : Enumeration) : Prop where
  distinct : Fields.Distinct enumeration.members
  members : ∀ name member, Fields.get? enumeration.members name = some member →
    member.WellFormed enumeration.name name

namespace Enumeration

variable {enumeration : Enumeration} {member : Member}

theorem byId?_listed {id : String} (distinct : Fields.Distinct enumeration.members)
    (found : enumeration.byId? id = some member) :
    member.id = id ∧ ∃ name, Fields.get? enumeration.members name = some member := by
  have holds := List.find?_some found
  obtain ⟨entry, held, rfl⟩ := List.mem_map.mp (List.mem_of_find?_eq_some found)
  exact ⟨by simpa using holds, entry.1, Fields.get?_of_mem distinct held⟩

/-- A member that is found is listed. -/
theorem lookup?_listed {value : Value} (distinct : Fields.Distinct enumeration.members)
    (found : enumeration.lookup? value = some member) :
    ∃ name, Fields.get? enumeration.members name = some member := by
  unfold lookup? at found
  split at found
  · split at found
    · exact ⟨_, found⟩
    · cases found
  · obtain ⟨id, -, byId⟩ := Option.bind_eq_some_iff.mp found
    exact (byId?_listed distinct byId).2
  · obtain ⟨id, -, byId⟩ := Option.bind_eq_some_iff.mp found
    exact (byId?_listed distinct byId).2

/-- An entry gives an id, and its literal, if it has one, gives that id. -/
theorem entry?_literal {name id : String} {raw : Json} {description : Option String}
    {literal : Option Json} (read : entry? name raw = .ok (some (id, description, literal))) :
    ∀ given, literal = some given → given ≠ .null ∧ id = idOfJson given := by
  intro given present
  cases raw with
  | null => cases read
  | object members =>
    unfold entry? at read
    split at read
    · cases read
    · split at read
      · cases read
        cases present
      · cases read
    · rename_i notObject
      exact absurd rfl (notObject members)
  | _ =>
    cases read
    cases present
    exact ⟨nofun, rfl⟩

theorem addEntries_wellFormed {name : String} {raw : List Json} {special : SpecialNames}
    {members result : Fields Member} (added : addEntries name raw special members = .ok result)
    (distinct : Fields.Distinct members)
    (each : ∀ held member, Fields.get? members held = some member → member.WellFormed name held) :
    Fields.Distinct result ∧
      ∀ held member, Fields.get? result held = some member → member.WellFormed name held := by
  induction raw generalizing special members with
  | nil =>
    cases added
    exact ⟨distinct, each⟩
  | cons first rest ih =>
    unfold addEntries at added
    cases read : entry? name first with
    | error error =>
      rw [read] at added
      cases added
    | ok entry =>
      rw [read] at added
      cases entry with
      | none => exact ih added distinct each
      | some entry =>
        obtain ⟨id, description, literal⟩ := entry
        cases conversion : Naming.pascalToUpperSnake id special with
        | mk converted after =>
          simp only [bind, Except.bind, conversion] at added
          refine ih added (distinct.insert _ _) ?_
          intro held member present
          rw [Fields.get?_insert] at present
          split at present
          · rename_i same
            cases present
            exact ⟨rfl, same.symm, entry?_literal read⟩
          · exact each held member present

theorem ofDefinition_wellFormed {name : String} {definition : Definition}
    (made : ofDefinition name definition = .ok enumeration) :
    enumeration.name = name ∧ enumeration.WellFormed := by
  unfold ofDefinition at made
  split at made
  · rename_i entries _
    cases added : addEntries name entries [] [] with
    | error error =>
      rw [added] at made
      cases made
    | ok members =>
      rw [added] at made
      cases made
      obtain ⟨distinct, each⟩ := addEntries_wellFormed added List.nodup_nil
        fun _ _ impossible => by cases impossible
      exact ⟨rfl, distinct, each⟩
  · cases made

end Enumeration

/-! ## Composite types -/

namespace Composite

/-- The properties of parents put together, a later declaration in the place of an earlier one. -/
def mergedProperties (parents : List Composite) : Fields Property :=
  parents.foldl (fun sofar parent => Fields.insertAll sofar parent.properties) []

/-- The last way of the parents for keys that are not declared. -/
def mergedCatchAll (parents : List Composite) : Option CatchAll :=
  parents.foldl (fun sofar parent => parent.catchAll.or sofar) none

end Composite

structure Property.WellFormed (name : String) (property : Property) : Prop where
  name : property.name = name
  snake : property.name = Naming.snake property.external
  fits : Fits True property.type property.caster
  default : property.default = .required ∨ property.default = .value .null

/-- A table that its initializer agrees with. -/
structure Composite.Coherent (composite : Composite) : Prop where
  distinct : Fields.Distinct composite.properties
  properties : ∀ name property, Fields.get? composite.properties name = some property →
    property.WellFormed name
  params : composite.signature.params = Fields.values composite.properties
  catchAll : composite.signature.catchAll = composite.catchAll
  fits : ∀ catchAll, composite.catchAll = some catchAll → Fits True catchAll.type catchAll.caster
  special : Naming.Sound composite.special

/-- A coherent table that was put together from those of the parents which initialize it. -/
structure Composite.WellFormed (registry : Registry) (composite : Composite) : Prop
    extends composite.Coherent where
  merged : ∀ signature parents, composite.initializer = .combined signature parents →
    ∃ composites, parents.mapM (Fields.get? registry.composites) = some composites ∧
      composite.properties = mergedProperties composites ∧
      composite.catchAll = mergedCatchAll composites

/-! ## Registries -/

structure Entry.WellFormed (name : String) (entry : Entry) : Prop where
  fits : Fits True entry.type entry.caster
  composite : ∀ target, entry.type = .composite target → target = name

structure Registry.WellFormed (registry : Registry) : Prop where
  entries : ∀ name entry, Fields.get? registry.entries name = some entry → entry.WellFormed name
  composites : ∀ name composite, Fields.get? registry.composites name = some composite →
    composite.name = name ∧ composite.WellFormed registry
  enumerations : ∀ name enumeration,
    Fields.get? registry.enumerations name = some enumeration →
      enumeration.name = name ∧ enumeration.WellFormed

/-- A registry whose tables have no name twice. -/
structure Registry.Distinct (registry : Registry) : Prop where
  entries : Fields.Distinct registry.entries
  composites : Fields.Distinct registry.composites
  enumerations : Fields.Distinct registry.enumerations

namespace Registry.Distinct

variable {registry : Registry} (distinct : registry.Distinct)

include distinct

theorem register (entry : Entry) : (registry.register entry).Distinct :=
  { distinct with entries := distinct.entries.insert _ _ }

theorem setComposite (composite : Composite) : (registry.setComposite composite).Distinct :=
  { distinct with composites := distinct.composites.insert _ _ }

theorem setEnumeration (enumeration : Enumeration) :
    (registry.setEnumeration enumeration).Distinct :=
  { distinct with enumerations := distinct.enumerations.insert _ _ }

end Registry.Distinct

theorem Registry.found_ok {α : Type} {fields : Fields α} {name : String} {value : α} :
    found fields name = .ok value ↔ Fields.get? fields name = some value := by
  unfold found
  split <;> simp_all

theorem Registry.found_error {α : Type} {fields : Fields α} {name : String} {error : Error} :
    found fields name = .error error ↔
      name ∉ Fields.names fields ∧ error = .classNotFound name := by
  unfold found
  cases found : Fields.get? fields name with
  | none =>
    have absent := Fields.get?_eq_none_iff.mp found
    simp [absent, eq_comm]
  | some value =>
    have present := Fields.mem_names_iff.mpr ⟨value, found⟩
    simp [present]

namespace Registry.WellFormed

variable {registry : Registry}

/-- An alias never stands between a name and its composite type. -/
theorem compositeNamed (wellFormed : registry.WellFormed) (name : String) :
    registry.compositeNamed name = registry.composite name := by
  unfold Registry.compositeNamed
  split
  · rename_i target found
    obtain ⟨entry, held, typed⟩ := Option.map_eq_some_iff.mp found
    rw [(wellFormed.entries name entry held).composite target typed]
  · rfl

theorem decode_eq (wellFormed : registry.WellFormed) {name : String} {composite : Composite}
    (present : Fields.get? registry.composites name = some composite) (value : Value) :
    registry.decode name value = registry.convert composite value := by
  rw [decode, wellFormed.compositeNamed, Registry.composite, found_ok.mpr present,
    Decode.except_bind]

theorem names_sound (wellFormed : registry.WellFormed) : registry.names.Sound := by
  intro type name special
  unfold NameTable.of Registry.names at special
  rw [Fields.get?_mapValues] at special
  cases found : Fields.get? registry.composites type with
  | none =>
    rw [found] at special
    cases special
  | some composite =>
    rw [found] at special
    exact (wellFormed.composites type composite found).2.special name special

theorem reachable_sound (wellFormed : registry.WellFormed) {names : NameTable}
    (reached : registry.Reachable names) : names.Sound :=
  wellFormed.names_sound.grow reached.grows

end Registry.WellFormed

/-! ## Tables -/

namespace Composite

variable {registry : Registry} {composite : Composite}

theorem signature_of_direct {signature : Signature}
    (direct : composite.initializer = .direct signature) : composite.signature = signature := by
  rw [Composite.signature, direct, Initializer.signature]

theorem signature_of_combined {signature : Signature} {parents : List String}
    (combined : composite.initializer = .combined signature parents) :
    composite.signature = signature := by
  rw [Composite.signature, combined, Initializer.signature]

theorem WellFormed.property_of_mem (wellFormed : composite.WellFormed registry)
    {property : Property} (member : property ∈ Fields.values composite.properties) :
    Fields.get? composite.properties property.name = some property := by
  obtain ⟨entry, held, rfl⟩ := List.mem_map.mp member
  have found : Fields.get? composite.properties entry.1 = some entry.2 :=
    Fields.get?_of_mem wellFormed.distinct held
  rw [(wellFormed.properties entry.1 entry.2 found).name]
  exact found

/-- The parameters are the properties under their own names. -/
theorem WellFormed.params_keyed (wellFormed : composite.WellFormed registry) :
    (composite.signature.params.map fun param => (param.name, param)) = composite.properties := by
  rw [wellFormed.params, Fields.values, List.map_map]
  conv => rhs; rw [← List.map_id composite.properties]
  apply List.map_congr_left
  intro entry member
  have found : Fields.get? composite.properties entry.1 = some entry.2 :=
    Fields.get?_of_mem wellFormed.distinct member
  simp [(wellFormed.properties entry.1 entry.2 found).name]

theorem WellFormed.distinctParams (wellFormed : composite.WellFormed registry) :
    composite.signature.DistinctParams := by
  have distinct := wellFormed.distinct
  rw [← wellFormed.params_keyed] at distinct
  simpa [Fields.Distinct, Fields.names, Function.comp_def] using distinct

theorem WellFormed.declares_iff (wellFormed : composite.WellFormed registry) {name : String} :
    composite.signature.declares name = true ↔ name ∈ Fields.names composite.properties := by
  rw [Signature.declares_iff, ← wellFormed.params_keyed]
  simp [Fields.names]

theorem WellFormed.undeclared_iff (wellFormed : composite.WellFormed registry) {name : String} :
    composite.signature.declares name = false ↔ Fields.get? composite.properties name = none := by
  rw [Bool.eq_false_iff, ne_eq, wellFormed.declares_iff, Fields.get?_eq_none_iff]

theorem WellFormed.acceptsExtra_iff (wellFormed : composite.WellFormed registry) :
    composite.signature.acceptsExtra = true ↔ composite.catchAll ≠ none := by
  rw [Signature.acceptsExtra, wellFormed.catchAll, Option.isSome_iff_ne_none]

/-- All defaults are null. -/
theorem WellFormed.defaultsHold (wellFormed : composite.WellFormed registry) {holds : Value → Prop}
    (null : holds .null) : composite.signature.DefaultsHold holds := by
  intro param member value default
  rw [wellFormed.params] at member
  have nothing := (wellFormed.properties _ _ (wellFormed.property_of_mem member)).default
  rw [default] at nothing
  cases nothing with
  | inl impossible => cases impossible
  | inr same =>
    cases same
    exact null

/-! ## Parents put together -/

theorem foldl_properties (parents : List Composite) (sofar : Fields Property) :
    parents.foldl (fun sofar parent => Fields.insertAll sofar parent.properties) sofar =
      Fields.insertAll sofar (parents.flatMap Composite.properties) := by
  induction parents generalizing sofar with
  | nil => rfl
  | cons parent rest ih => rw [List.foldl_cons, ih, List.flatMap_cons, Fields.insertAll_append]

theorem mergedProperties_eq (parents : List Composite) :
    mergedProperties parents = Fields.ofList (parents.flatMap Composite.properties) :=
  foldl_properties parents []

theorem mergedCatchAll_eq (parents : List Composite) :
    mergedCatchAll parents = (parents.filterMap Composite.catchAll).getLast? := by
  have general : ∀ sofar : Option CatchAll,
      parents.foldl (fun sofar parent => parent.catchAll.or sofar) sofar =
        (parents.filterMap Composite.catchAll).getLast?.or sofar := by
    induction parents with
    | nil => exact fun sofar => rfl
    | cons parent rest ih =>
      intro sofar
      rw [List.foldl_cons, ih]
      cases found : parent.catchAll with
      | none => rw [List.filterMap_cons_none found, Option.none_or]
      | some catchAll =>
        rw [List.filterMap_cons_some found, List.getLast?_cons]
        cases (rest.filterMap Composite.catchAll).getLast? <;> rfl
  rw [mergedCatchAll, general none, Option.or_none]

theorem mem_mergedProperties {parents : List Composite} {parent : Composite}
    (member : parent ∈ parents) {name : String}
    (declared : name ∈ Fields.names parent.properties) :
    name ∈ Fields.names (mergedProperties parents) := by
  rw [mergedProperties_eq, Fields.mem_names_ofList]
  obtain ⟨entry, held, rfl⟩ := List.mem_map.mp declared
  exact Fields.name_mem (List.mem_flatMap.mpr ⟨parent, member, held⟩)

theorem mergedCatchAll_ne_none {parents : List Composite} {parent : Composite}
    (member : parent ∈ parents) (present : parent.catchAll ≠ none) :
    mergedCatchAll parents ≠ none := by
  obtain ⟨catchAll, found⟩ := Option.ne_none_iff_exists'.mp present
  rw [mergedCatchAll_eq, ne_eq, List.getLast?_eq_none_iff]
  intro empty
  have kept : catchAll ∈ parents.filterMap Composite.catchAll :=
    List.mem_filterMap.mpr ⟨parent, member, found⟩
  rw [empty] at kept
  cases kept

end Composite

/-- A parent that is looked up among others is among those that were found. -/
theorem Composite.mem_of_mapM {composites : Fields Composite} {parents : List String}
    {found : List Composite} (all : parents.mapM (Fields.get? composites) = some found)
    {parent : String} (member : parent ∈ parents) {composite : Composite}
    (present : Fields.get? composites parent = some composite) : composite ∈ found := by
  obtain ⟨other, held, same⟩ := Lists.result_of_source (Lists.mapM_eq_some.mp all) member
  rw [present] at same
  cases same
  exact held

namespace Registry.WellFormed

variable {registry : Registry}

open Decode (Nested Within)

theorem within (wellFormed : registry.WellFormed) {composite : Composite}
    (own : composite.WellFormed registry) {signature : Signature} {parents : List String}
    (combined : composite.initializer = .combined signature parents) {parent : String}
    (member : parent ∈ parents) {above : Composite}
    (present : Fields.get? registry.composites parent = some above) :
    Within above.signature signature := by
  obtain ⟨composites, all, properties, catchAll⟩ := own.merged signature parents combined
  have among := Composite.mem_of_mapM all member present
  have above' := (wellFormed.composites parent above present).2
  have same := Composite.signature_of_combined combined
  constructor
  · intro param declared
    have held : param.name ∈ Fields.names above.properties :=
      above'.declares_iff.mp (Signature.declares_iff.mpr ⟨param, declared, rfl⟩)
    rw [← same, own.declares_iff, properties]
    exact Composite.mem_mergedProperties among held
  · intro accepts
    have some := above'.acceptsExtra_iff.mp accepts
    rw [← same, own.acceptsExtra_iff, catchAll]
    exact Composite.mergedCatchAll_ne_none among some

theorem nested (wellFormed : registry.WellFormed) (name : String) (composite : Composite)
    (present : Fields.get? registry.composites name = some composite) :
    Nested registry composite.initializer where
  params := (wellFormed.composites name composite present).2.distinctParams
  within := fun _ _ combined _ member _ found =>
    wellFormed.within (wellFormed.composites name composite present).2 combined member found

end Registry.WellFormed

end TypedSchema
