import TypedSchema.Proofs.Decode.Continuing
import TypedSchema.Proofs.Decode.Returning
import TypedSchema.Proofs.Naming.Regaining
import TypedSchema.Proofs.Values.Ranks

/-!
Objects from their plain form. Where all attributes of an object come back from their keys, decoding
its plain form is constructing from the plain values of these attributes. What that gives has the
attributes of the object, and it is the object again, up to the plain form of what is not declared,
if the declared values are coerced from theirs.
-/

namespace TypedSchema

/-! ## Attributes and their keys -/

namespace Composite

variable {registry : Registry} {composite : Composite} {special : SpecialNames} {name : String}

/-- Which attributes come back from their keys: those that are declared or special, and those that
conversion carries to a key and back. -/
def Regains (composite : Composite) (special : SpecialNames) (name : String) : Prop :=
  composite.property? name ≠ none ∨ name ∈ special ∨ Naming.Regained name

theorem externalName_of_declared {property : Property}
    (declared : composite.property? name = some property) (special : SpecialNames) :
    composite.externalName name special = property.external := by
  rw [externalName, declared]

theorem externalName_of_undeclared (undeclared : composite.property? name = none)
    (absent : name ∉ special) (identifier : Naming.isIdentifier name = true) :
    composite.externalName name special = String.ofList (Naming.join name.toList) := by
  rw [externalName, undeclared]
  exact Naming.snakeToPascal_of_not_mem absent identifier

theorem externalName_of_special (undeclared : composite.property? name = none)
    (held : name ∈ special) : composite.externalName name special = name := by
  rw [externalName, undeclared]
  exact Naming.snakeToPascal_of_mem held

variable (own : composite.WellFormed registry)
  (identifier : composite.property? name = none → Naming.isIdentifier name = true)

include own identifier

theorem attributeOf_externalName_iff (sound : Naming.Sound special) :
    composite.attributeOf (composite.externalName name special) = name ↔
      composite.Regains special name := by
  cases declared : composite.property? name with
  | some property =>
    have returned := (own.attributeOf_external declared).2
    simp [externalName_of_declared declared, returned, Regains, declared]
  | none =>
    by_cases held : name ∈ special
    · rw [externalName_of_special declared held, own.attributeOf_eq]
      simp [Naming.snake_of_escaped (sound name held), Regains, held]
    · rw [externalName_of_undeclared declared held (identifier declared), own.attributeOf_eq]
      simp [Regains, declared, held, Naming.Regained]

/-- The key of an attribute that comes back needs no special name that there is not. -/
theorem Regains.settled (regains : composite.Regains special name)
    (escapes : composite.Escapes (composite.externalName name special)) :
    composite.externalName name special ∈ special := by
  cases declared : composite.property? name with
  | some property =>
    rw [externalName_of_declared declared] at escapes
    exact absurd escapes.1 (own.attributeOf_external declared).1
  | none =>
    by_cases held : name ∈ special
    · rwa [externalName_of_special declared held]
    · have regained : Naming.Regained name :=
        (regains.resolve_left (not_not.mpr declared)).resolve_left held
      rw [externalName_of_undeclared declared held (identifier declared)] at escapes
      exact absurd escapes.2 regained.not_escaped

end Composite

/-! ## Objects from their plain form -/

namespace Registry

/-- What is decoded from the plain form of an object, with these special names. -/
def decodeAgain (registry : Registry) (names : NameTable) (type : String)
    (attributes : Fields Value) : Except Error Value × NameTable :=
  (registry.decode type
    (.map (Value.toEntries (registry.keyOf names) type attributes))).run names

/-- The plain form of a declared value is coerced to the value again. -/
def Recovers (registry : Registry) (names : NameTable) (property : Property) (value : Value) :
    Prop :=
  let plain := value.toPlain (registry.keyOf names)
  (Decode.coerce registry (Decode.castFor registry property.caster plain) property.name
    property.type property.caster plain).run names = (.ok value, names)

end Registry

namespace Composite

/-- Attributes that are not declared in their plain form. -/
def plainExtras (composite : Composite) (keyOf : KeyOf) (attributes : Fields Value) :
    Fields Value :=
  attributes.map fun (name, value) =>
    (name, if (composite.property? name).isSome then value else value.toPlain keyOf)

theorem names_plainExtras (composite : Composite) (keyOf : KeyOf) (attributes : Fields Value) :
    Fields.names (composite.plainExtras keyOf attributes) = Fields.names attributes := by
  simp [plainExtras, Fields.names, Function.comp_def]

theorem get?_plainExtras (composite : Composite) (keyOf : KeyOf) (attributes : Fields Value)
    (name : String) :
    Fields.get? (composite.plainExtras keyOf attributes) name =
      (Fields.get? attributes name).map fun value =>
        if (composite.property? name).isSome then value else value.toPlain keyOf := by
  induction attributes with
  | nil => rfl
  | cons entry rest ih =>
    rw [plainExtras, List.map_cons, Fields.get?_cons, Fields.get?_cons, ← plainExtras, ih]
    by_cases same : name = entry.1
    · simp [same]
    · simp [same]

/-- What is decoded from the plain form of an object all of whose attributes come back. -/
structure Rebuilds (registry : Registry) (composite : Composite) (names : NameTable)
    (attributes : Fields Value) : Prop where
  constructed : registry.decodeAgain names composite.name attributes =
    (registry.construct composite.name
      { keyword := Fields.mapValues (Value.toPlain (registry.keyOf names)) attributes }).run names
  listed : ∀ again later,
    registry.decodeAgain names composite.name attributes = (.ok again, later) →
      ∃ others, again = .object composite.name others ∧
        Fields.names others = Fields.names attributes ∧
        ∀ name value, Fields.get? attributes name = some value → composite.property? name = none →
          Fields.get? others name = some (value.toPlain (registry.keyOf names))
  whole : registry.AncestorsAgree composite.name →
    (∀ name property value, composite.property? name = some property →
      Fields.get? attributes name = some value → registry.Recovers names property value) →
    registry.decodeAgain names composite.name attributes =
      (.ok (.object composite.name (composite.plainExtras (registry.keyOf names) attributes)),
        names)

end Composite

namespace Decode

variable {registry : Registry} {names : NameTable} {composite : Composite}
  {attributes : Fields Value}

/-- In a registry that is well formed, constructing is that of the composite type. -/
theorem construct_eq (wellFormed : registry.WellFormed)
    (present : Fields.get? registry.composites composite.name = some composite)
    (arguments : Arguments) :
    registry.construct composite.name arguments =
      construct registry (castFor registry (.composite composite.name)
        (.list (arguments.positional ++ Fields.values arguments.keyword))) composite arguments := by
  rw [Registry.construct, wellFormed.compositeNamed, Registry.composite,
    Registry.found_ok.mpr present, except_bind]

/-- Coercing to no type in particular changes nothing. -/
theorem coerce_any (cast : Cast) (name : String) (caster : Caster) (value : Value) :
    coerce registry cast name .any caster value = pure value := by
  rw [coerce, if_pos (by simp [Registry.conforms])]

section

variable (setting : Setting registry names)
  (present : Fields.get? registry.composites composite.name = some composite)
  (identifiers : ∀ name ∈ Fields.names attributes,
    composite.property? name = none → Naming.isIdentifier name = true)
  (regains : ∀ name ∈ Fields.names attributes, composite.Regains (names.of composite.name) name)

include setting present identifiers regains

theorem attributeOf_keyOf {name : String} (member : name ∈ Fields.names attributes) :
    composite.attributeOf (registry.keyOf names composite.name name) = name := by
  have own := (setting.wellFormed.composites composite.name composite present).2
  rw [Registry.keyOf, present]
  exact (Composite.attributeOf_externalName_iff own (identifiers name member)
    (setting.sound composite.name)).mpr (regains name member)

/-- The plain form has one entry for each attribute. -/
theorem toEntries_of_regains (distinct : Fields.Distinct attributes) :
    Value.toEntries (registry.keyOf names) composite.name attributes =
      Value.plainAttributes (registry.keyOf names) composite.name attributes := by
  apply Fields.ofList_of_distinct
  rw [Fields.Distinct, Value.names_plainAttributes]
  refine List.Nodup.map_on (fun first firstMember second secondMember same => ?_) distinct
  rw [← attributeOf_keyOf setting present identifiers regains firstMember, same,
    attributeOf_keyOf setting present identifiers regains secondMember]

/-- Its keys are read as the attributes that they were written for. -/
theorem internalEntries_plainAttributes :
    composite.internalEntries
        (Value.plainAttributes (registry.keyOf names) composite.name attributes) =
      Fields.mapValues (Value.toPlain (registry.keyOf names)) attributes := by
  rw [Value.plainAttributes_eq, Composite.internalEntries, Fields.mapValues, List.map_map]
  refine List.map_congr_left fun entry member => ?_
  simp only [Function.comp_apply]
  rw [attributeOf_keyOf setting present identifiers regains (Fields.name_mem member)]

/-- Reading them asks for no further special names. -/
theorem keywords_plainAttributes :
    (keywords composite
      (Value.plainAttributes (registry.keyOf names) composite.name attributes) names).2 =
        names := by
  have own := (setting.wellFormed.composites composite.name composite present).2
  have keyOf : registry.keyOf names composite.name =
      fun name => composite.externalName name (names.of composite.name) := by
    funext name
    rw [Registry.keyOf, present]
  refine keywords_again setting present ?_ fun name member =>
    (regains name member).settled own (identifiers name member)
  rw [Value.names_plainAttributes, keyOf]

/-- Decoding the plain form is constructing from the plain values of the attributes. -/
theorem decodeAgain_eq (distinct : Fields.Distinct attributes) :
    registry.decodeAgain names composite.name attributes =
      (registry.construct composite.name
        { keyword := Fields.mapValues (Value.toPlain (registry.keyOf names)) attributes }).run
          names := by
  have wellFormed := setting.wellFormed
  have internal := internalEntries_plainAttributes setting present identifiers regains
  have apart : Fields.Distinct
      (Fields.mapValues (Value.toPlain (registry.keyOf names)) attributes) := by
    rw [Fields.Distinct, Fields.names_mapValues]
    exact distinct
  -- The plain form is nested as deep as the list of its values.
  have layers : castFor registry (.composite composite.name)
        (.map (Value.plainAttributes (registry.keyOf names) composite.name attributes)) =
      castFor registry (.composite composite.name) (.list ([] ++ Fields.values
        (Fields.mapValues (Value.toPlain (registry.keyOf names)) attributes))) := by
    have values : Fields.values
          (Value.plainAttributes (registry.keyOf names) composite.name attributes) =
        Fields.values (Fields.mapValues (Value.toPlain (registry.keyOf names)) attributes) := by
      simp [Value.plainAttributes_eq, Fields.values, Fields.mapValues, Function.comp_def]
    rw [List.nil_append, ← values, castFor, castFor, Decode.layers, Decode.layers, Value.rank,
      Value.rank, Value.rankOfItems_values]
  rw [Registry.decodeAgain, toEntries_of_regains setting present identifiers regains distinct,
    wellFormed.decode_eq present, construct_eq wellFormed present]
  show (fromEntries registry _ composite _).run names = _
  rw [fromEntries, run_bind, run_lift, keywords_fst composite _ setting.sound, internal,
    keywords_plainAttributes setting present identifiers regains]
  dsimp only
  rw [Fields.ofList_of_distinct apart, layers]

end

section

variable (wellFormed : registry.WellFormed)
  (present : Fields.get? registry.composites composite.name = some composite) {cast : Cast}
  {keyword again : Fields Value} (apart : Fields.Distinct keyword) {before later : NameTable}
  (same : Fields.names again = Fields.names attributes)

include wellFormed present apart same

/-- An object that is constructed from keywords with the names of the attributes of another one has
these attributes. -/
theorem construct_listed
    (built : (construct registry cast composite { keyword := keyword }).run before =
      (.ok (.object composite.name attributes), later))
    (distinct : Fields.Distinct attributes) {other : Cast} (growing : GrowingCast other)
    {result : Value} {start stop : NameTable}
    (ran : (construct registry other composite { keyword := again }).run start =
      (.ok result, stop)) :
    ∃ others, result = .object composite.name others ∧
      Fields.names others = Fields.names attributes ∧
        Filled registry other composite again start stop others := by
  have againApart : Fields.Distinct again := by
    rw [Fields.Distinct, same]
    exact distinct
  obtain ⟨accepts, found, _, held, assigned, equal⟩ :=
    (construct_ok wellFormed present apart).mp built
  cases equal
  obtain ⟨againAccepts, others, result, othersHeld, assignedAgain, rfl⟩ :=
    (construct_ok wellFormed present againApart).mp ran
  cases held.symm.trans othersHeld
  exact ⟨result, rfl,
    assignAll_names_again wellFormed present apart accepts held assigned same assignedAgain,
    assignAll_filled wellFormed growing present againApart againAccepts held assignedAgain⟩

/-- If each attribute is coerced to one of some values, these are the attributes. -/
theorem construct_whole {names : NameTable} (descends : registry.Descends)
    (agree : registry.AncestorsAgree composite.name)
    (built : (construct registry cast composite { keyword := keyword }).run before =
      (.ok (.object composite.name attributes), later)) (growing : GrowingCast cast)
    {values : Fields Value} (order : Fields.names values = Fields.names attributes) {other : Cast}
    (coerces : ∀ step value, composite.Assigns step →
      Fields.get? values step.name = some value → Fields.get? again step.name = some step.value →
        (coerce registry other step.name step.type step.caster step.value).run names =
          (.ok value, names)) :
    (construct registry other composite { keyword := again }).run names =
      (.ok (.object composite.name values), names) := by
  have own := (wellFormed.composites composite.name composite present).2
  obtain ⟨accepts, found, _, held, assigned, equal⟩ :=
    (construct_ok wellFormed present apart).mp built
  cases equal
  have filled := assignAll_filled wellFormed growing present apart accepts held assigned
  have againApart : Fields.Distinct again := by
    rw [Fields.Distinct, same]
    exact filled.distinct
  have assignedAgain := assignments_again wellFormed present apart accepts held assigned same
    descends agree filled order coerces
  exact (construct_ok wellFormed present againApart).mpr
    ⟨accepts_again own accepts filled same, found, values, held, assignedAgain, rfl⟩

end

/-- What is coerced with the layers for a value is coerced so inside an object that holds it. -/
theorem coerce_inside
    (present : Fields.get? registry.composites composite.name = some composite)
    {step : Assignment} (assigns : composite.Assigns step) {entries : Fields Value} {key : String}
    (member : (key, step.value) ∈ entries) {value : Value}
    (coerced : (coerce registry (castFor registry step.caster step.value) step.name step.type
      step.caster step.value).run names = (.ok value, names)) :
    (coerce registry
        (castFor registry (.composite composite.name) (.list ([] ++ Fields.values entries)))
        step.name step.type step.caster step.value).run names = (.ok value, names) := by
  have fewer : layers registry step.caster step.value ≤
      layers registry (.composite composite.name) (.list ([] ++ Fields.values entries)) := by
    refine Nat.le_trans (layers_inside assigns present member) ?_
    simp only [layers, layersInside, Caster.height, Value.rank, List.nil_append,
      Value.rankOfItems_values, Nat.add_mul]
    omega
  -- The cast that had fewer layers was not cut off, so more of them change nothing.
  rcases (coerce_continues (castWith_continues registry fewer) step.name step.type step.caster
    step.value).runs names with ⟨error, after, failed, -⟩ | runs
  · cases coerced.symm.trans failed
  · exact runs.symm.trans coerced

/-- An object whose attributes all come back is rebuilt from its plain form. -/
theorem construct_rebuilds (setting : Setting registry names)
    (present : Fields.get? registry.composites composite.name = some composite)
    {catchAll : CatchAll} (takes : composite.catchAll = some catchAll)
    (untyped : catchAll.type = .any) {cast : Cast} (growing : GrowingCast cast)
    {keyword : Fields Value} (apart : Fields.Distinct keyword) {before later : NameTable}
    (built : (construct registry cast composite { keyword := keyword }).run before =
      (.ok (.object composite.name attributes), later))
    (distinct : Fields.Distinct attributes)
    (identifiers : ∀ name ∈ Fields.names attributes,
      composite.property? name = none → Naming.isIdentifier name = true)
    (regains : ∀ name ∈ Fields.names attributes,
      composite.Regains (names.of composite.name) name) :
    composite.Rebuilds registry names attributes := by
  have wellFormed := setting.wellFormed
  have own := (wellFormed.composites composite.name composite present).2
  have same : Fields.names (Fields.mapValues (Value.toPlain (registry.keyOf names)) attributes) =
      Fields.names attributes := Fields.names_mapValues ..
  have again := decodeAgain_eq setting present identifiers regains distinct
  rw [construct_eq wellFormed present] at again
  constructor
  case constructed => exact decodeAgain_eq setting present identifiers regains distinct
  case listed =>
    intro result after ran
    rw [again] at ran
    obtain ⟨others, rfl, listed, filled⟩ := construct_listed wellFormed present apart same built
      distinct (castWith_growing registry _) ran
    refine ⟨others, rfl, listed, fun name value held undeclared => ?_⟩
    -- The plain value was given as an extra, and the catch-all leaves it as it is.
    have given : Fields.get? (Fields.mapValues (Value.toPlain (registry.keyOf names)) attributes)
        name = some (value.toPlain (registry.keyOf names)) := by
      rw [Fields.get?_mapValues, held, Option.map_some]
    obtain ⟨way, other, ownTakes, found, _, _, -, -, coerced⟩ :=
      filled.extra name _ given undeclared
    cases takes.symm.trans ownTakes
    simp only [untyped, coerce_any] at coerced
    cases coerced
    exact found
  case whole =>
    intro agree recovers
    rw [again]
    refine construct_whole wellFormed present apart same setting.descends agree built growing
      (composite.names_plainExtras _ _) fun step value assigns held keyword => ?_
    have member := Fields.mem_of_get? keyword
    rw [Composite.get?_plainExtras, Option.map_eq_some_iff] at held
    rw [Fields.get?_mapValues] at keyword
    obtain ⟨stored, found, rfl⟩ := held
    rw [found, Option.map_some, Option.some.injEq] at keyword
    -- Declared values are recovered; all others are left in the plain form that is read.
    cases assigns with
    | @declared property declared type caster =>
      refine coerce_inside present (.declared declared type caster) member ?_
      have recovered := recovers step.name property stored declared found
      have named := (own.properties step.name property declared).name
      have known : (composite.property? step.name).isSome = true := by
        rw [Composite.property?, declared, Option.isSome_some]
      rw [Registry.Recovers, keyword, named, ← type, ← caster] at recovered
      rw [if_pos known]
      exact recovered
    | @undeclared way absent ownTakes type caster =>
      cases takes.symm.trans ownTakes
      rw [Composite.property?, absent, keyword, type, untyped, coerce_any]
      rfl

end Decode

end TypedSchema
