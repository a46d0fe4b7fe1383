import TypedSchema.Proofs.Compile.Compiled
import TypedSchema.Proofs.Decode.Casting
import TypedSchema.Proofs.Registry.Subtyping

/-!
Decoded data is of its type. Whatever a cast gives conforms to the type that goes with the caster,
and so does every attribute of every object inside, except under plain unions, whose data is left
as it is.
-/

namespace TypedSchema

namespace Registry

variable (registry : Registry)

/-- Null, a value of the type, or any value if there is a plain union in the type. -/
def Admits (type : TypeExpr) (caster : Caster) (value : Value) : Prop :=
  value = .null ∨ registry.conforms value type = true ∨ PlainUnion type caster

/-- Every declared property is an attribute, and all attributes are as they are declared. -/
structure ObjectTyped (composite : Composite) (attributes : Fields Value) : Prop where
  declared : ∀ property ∈ Fields.values composite.properties,
    ∃ value, Fields.get? attributes property.name = some value ∧
      registry.Admits property.type property.caster value
  undeclared : ∀ name value, (name, value) ∈ attributes → composite.property? name = none →
    ∃ catchAll, composite.catchAll = some catchAll ∧
      registry.Admits catchAll.type catchAll.caster value

/-- Every object in a value has a composite type and is as that type declares. -/
def ObjectsTyped (value : Value) : Prop :=
  ∀ type attributes, Value.Occurs (.object type attributes) value →
    ∃ composite, registry.composite type = .ok composite ∧
      registry.ObjectTyped composite attributes

end Registry

namespace Registry

variable {registry : Registry}

/-! ## Subtypes and scalars -/

theorem castScalar_conforms {type : Scalar} {value result : Value}
    (cast : Decode.castScalar type value = some result) :
    conformsScalar type result = true := by
  cases type <;>
    · obtain ⟨_, -, rfl⟩ := Option.map_eq_some_iff.mp cast
      rfl

theorem conformsAny_of_mem {value : Value} {members : List TypeExpr} {type : TypeExpr}
    (member : type ∈ members) (conforms : registry.conforms value type = true) :
    registry.conformsAny value members = true := by
  induction members with
  | nil => cases member
  | cons first rest ih =>
    rw [conformsAny, Bool.or_eq_true_iff]
    cases List.mem_cons.mp member with
    | inl same => exact .inl (same ▸ conforms)
    | inr later => exact .inr (ih later)

/-! ## Objects inside -/

theorem objectsTyped_of_scalar {type : Scalar} {value : Value}
    (conforms : conformsScalar type value = true) : registry.ObjectsTyped value := by
  intro name attributes occurs
  cases occurs with
  | self => cases type <;> cases conforms
  | item => cases type <;> cases conforms
  | entry => cases type <;> cases conforms
  | field => cases type <;> cases conforms

theorem objectsTyped_member (member : Member) : registry.ObjectsTyped (.member member) := by
  intro type attributes occurs
  cases occurs

theorem objectsTyped_of_plain {value : Value} (plain : value.Plain) :
    registry.ObjectsTyped value :=
  fun type attributes occurs => absurd occurs (plain.no_object type attributes)

theorem objectsTyped_list {items : List Value}
    (each : ∀ item ∈ items, registry.ObjectsTyped item) : registry.ObjectsTyped (.list items) := by
  intro type attributes occurs
  cases occurs with
  | item member inner => exact each _ member type attributes inner

theorem objectsTyped_object {name : String} {composite : Composite} {attributes : Fields Value}
    (present : registry.composite name = .ok composite)
    (typed : registry.ObjectTyped composite attributes)
    (each : ∀ entry ∈ attributes, registry.ObjectsTyped entry.2) :
    registry.ObjectsTyped (.object name attributes) := by
  intro type inside occurs
  cases occurs with
  | self => exact ⟨composite, present, typed⟩
  | field member inner => exact each _ member type inside inner

end Registry

namespace Decode

open Value (Plain)

variable {registry : Registry} {cast : Cast} {names after : NameTable}

/-! ## Casts -/

/-- A cast that turns plain data into data of the type that goes with the caster. -/
def TypedCast (registry : Registry) (cast : Cast) : Prop :=
  ∀ (type : TypeExpr) (caster : Caster) (value result : Value) (names after : NameTable),
    value.Plain → Fits True type caster →
      (cast caster value).run names = (.ok result, after) →
        registry.ObjectsTyped result ∧
          (Fits False type caster → registry.conforms result type = true)

theorem CastTo.typed (typed : TypedCast registry cast) {type : TypeExpr} {caster : Caster}
    {value result : Value} (plain : value.Plain) (fits : Fits True type caster)
    (inner : CastTo cast names after caster value result) :
    registry.ObjectsTyped result ∧
      (Fits False type caster → registry.conforms result type = true) := by
  obtain ⟨start, stop, -, -, ran⟩ := inner
  exact typed type caster value result start stop plain fits ran

theorem Coerced.typed (typed : TypedCast registry cast) {step : Assignment} {result : Value}
    (plain : step.value.Plain) (fits : Fits True step.type step.caster)
    (coerced : Coerced registry cast names after step result) :
    registry.ObjectsTyped result ∧ registry.Admits step.type step.caster result := by
  cases coerced.cases with
  | inl kept =>
    obtain ⟨reason, rfl⟩ := kept
    refine ⟨Registry.objectsTyped_of_plain plain, ?_⟩
    cases reason with
    | inl null =>
      cases shape : step.value with
      | null => exact .inl rfl
      | _ =>
        rw [shape] at null
        cases null
    | inr conforms => exact .inr (.inl conforms)
  | inr casted =>
    obtain ⟨inside, conforms⟩ := casted.typed typed plain fits
    refine ⟨inside, ?_⟩
    cases fits.plainUnion_or with
    | inl plain => exact .inr (.inr plain)
    | inr whole => exact .inr (.inl (conforms whole))

theorem supplied_plain {composite : Composite} (own : composite.WellFormed registry)
    {name : String} {property : Property}
    (declared : Fields.get? composite.properties name = some property) {keywords : Fields Value}
    (plain : ∀ entry ∈ keywords, Plain entry.2) {given : Value}
    (supplied : property.supplied keywords = some given) : given.Plain := by
  unfold Property.supplied at supplied
  cases found : Fields.get? keywords property.name with
  | some value =>
    simp only [found, Option.some.injEq] at supplied
    exact supplied ▸ plain _ (Fields.mem_of_get? found)
  | none =>
    cases (own.properties name property declared).default with
    | inl required => simp [found, required] at supplied
    | inr null =>
      simp only [found, null, Option.some.injEq] at supplied
      exact supplied ▸ .null

/-- An object that is filled by typed casts is as its type declares, and so is everything in it. -/
theorem Filled.typed (typed : TypedCast registry cast) {composite : Composite}
    (own : composite.WellFormed registry) {keywords attributes : Fields Value}
    (plain : ∀ entry ∈ keywords, Plain entry.2)
    (filled : Filled registry cast composite keywords names after attributes) :
    registry.ObjectTyped composite attributes ∧
      ∀ entry ∈ attributes, registry.ObjectsTyped entry.2 := by
  have declared : ∀ name property value, Fields.get? composite.properties name = some property →
      Fields.get? attributes name = some value →
        registry.ObjectsTyped value ∧ registry.Admits property.type property.caster value := by
    intro name property value held assigned
    obtain ⟨given, result, supplied, found, coerced⟩ := filled.declared name property held
    rw [assigned] at found
    cases found
    exact coerced.typed typed (supplied_plain own held plain supplied)
      (own.properties name property held).fits
  have undeclared : ∀ name value, Fields.get? composite.properties name = none →
      Fields.get? attributes name = some value →
        registry.ObjectsTyped value ∧ ∃ catchAll, composite.catchAll = some catchAll ∧
          registry.Admits catchAll.type catchAll.caster value := by
    intro name value absent assigned
    have known := filled.only name (Fields.mem_names_iff.mpr ⟨value, assigned⟩)
    rw [Fields.mem_names_iff, absent] at known
    obtain ⟨given, keyword⟩ := Fields.mem_names_iff.mp (known.resolve_left (by simp))
    obtain ⟨catchAll, result, takes, found, coerced⟩ := filled.extra name given keyword absent
    rw [assigned] at found
    cases found
    obtain ⟨inside, admits⟩ := coerced.typed typed (plain _ (Fields.mem_of_get? keyword))
      (own.fits catchAll takes)
    exact ⟨inside, catchAll, takes, admits⟩
  constructor
  · constructor
    · intro property member
      have held := own.property_of_mem member
      obtain ⟨given, value, -, assigned, -⟩ := filled.declared property.name property held
      exact ⟨value, assigned, (declared property.name property value held assigned).2⟩
    · intro name value member absent
      exact (undeclared name value absent (Fields.get?_of_mem filled.distinct member)).2
  · intro entry member
    have assigned : Fields.get? attributes entry.1 = some entry.2 :=
      Fields.get?_of_mem filled.distinct member
    cases held : Fields.get? composite.properties entry.1 with
    | some property => exact (declared _ property _ held assigned).1
    | none => exact (undeclared _ _ held assigned).1

theorem fromEntries_typed (wellFormed : registry.WellFormed) (growing : GrowingCast cast)
    (typed : TypedCast registry cast) {name : String} {composite : Composite}
    (present : Fields.get? registry.composites name = some composite) {entries : Fields Value}
    (plain : ∀ entry ∈ entries, Plain entry.2) {result : Value}
    (ran : (fromEntries registry cast composite entries).run names = (.ok result, after)) :
    registry.ObjectsTyped result ∧ registry.conforms result (.composite name) = true := by
  obtain ⟨keyword, attributes, rfl, fromData, -, filled⟩ :=
    fromEntries_filled wellFormed growing present ran
  have own := (wellFormed.composites name composite present).2
  have keywordPlain : ∀ entry ∈ keyword, Plain entry.2 := by
    intro entry member
    obtain ⟨key, held⟩ := fromData entry member
    exact plain (key, entry.2) held
  obtain ⟨object, inside⟩ := filled.typed typed own keywordPlain
  exact ⟨Registry.objectsTyped_object (Registry.found_ok.mpr present) object inside,
    registry.isSubtype_refl name⟩

theorem castLayer_typed (wellFormed : registry.WellFormed) (growing : GrowingCast cast)
    (typed : TypedCast registry cast) : TypedCast registry (castLayer registry cast) := by
  intro type caster value result names after plain fits ran
  induction fits with
  | any =>
    cases castLayer_identity_ok ran
    exact ⟨Registry.objectsTyped_of_plain plain, fun _ => rfl⟩
  | scalar scalar =>
    obtain ⟨casted, -⟩ := castLayer_scalar_ok.mp ran
    have conforms := Registry.castScalar_conforms casted
    exact ⟨Registry.objectsTyped_of_scalar conforms, fun _ => conforms⟩
  | @list itemType itemCaster inner =>
    obtain ⟨items, results, rfl, rfl, each⟩ := castLayer_list_ok growing ran
    cases plain with
    | list itemsPlain =>
      have eachTyped : ∀ result ∈ results, registry.ObjectsTyped result ∧
          (Fits False itemType itemCaster → registry.conforms result itemType = true) := by
        intro result member
        obtain ⟨item, itemMember, casted⟩ := Lists.source_of_result each member
        exact casted.typed typed (itemsPlain item itemMember) inner
      refine ⟨Registry.objectsTyped_list fun item member => (eachTyped item member).1, ?_⟩
      intro whole
      cases whole with
      | list whole =>
        rw [Registry.conforms, List.all_eq_true]
        exact fun item member => (eachTyped item member).2 whole
  | union members allowed =>
    cases castLayer_identity_ok ran
    refine ⟨Registry.objectsTyped_of_plain plain, ?_⟩
    intro whole
    cases whole with
    | union _ impossible => exact impossible.elim
  | optional inner ih =>
    obtain ⟨inside, conforms⟩ := ih ran
    refine ⟨inside, ?_⟩
    intro whole
    cases whole with
    | optional inner =>
      rw [Registry.conforms, Bool.or_eq_true_iff]
      exact .inr (conforms inner)
  | enumeration name =>
    obtain ⟨⟨enumeration, member, present, found, rfl⟩, -⟩ := castLayer_enumeration_ok.mp ran
    obtain ⟨named, own⟩ := wellFormed.enumerations name enumeration present
    obtain ⟨held, listed⟩ := Enumeration.lookup?_listed own.distinct found
    have same := (own.members held member listed).enumeration
    refine ⟨Registry.objectsTyped_member member, fun _ => ?_⟩
    simp [Registry.conforms, same, named]
  | composite name =>
    obtain ⟨entries, composite, rfl, present, ran⟩ :=
      (castLayer_composite_ok wellFormed plain).mp ran
    cases plain with
    | map each =>
      obtain ⟨inside, conforms⟩ := fromEntries_typed wellFormed growing typed present each ran
      exact ⟨inside, fun _ => conforms⟩
  | polymorph typeOf listed inner =>
    obtain ⟨data, branch, -, selected, casted⟩ := castLayer_polymorph_ok plain ran
    have member := select_mem selected
    obtain ⟨inside, -⟩ := casted.typed typed plain (inner branch member)
    refine ⟨inside, ?_⟩
    intro whole
    cases whole with
    | polymorph choice listed inner' =>
      -- The member that goes with the branch need not be the same without plain unions.
      have fits : Fits True (choice branch) branch.caster := (inner' branch member).mono
      rw [Registry.conforms]
      exact Registry.conformsAny_of_mem (listed branch member)
        ((casted.typed typed plain fits).2 (inner' branch member))

theorem castWith_typed (wellFormed : registry.WellFormed) (layers : Nat) :
    TypedCast registry (castWith registry layers) := by
  induction layers with
  | zero =>
    intro type caster value result names after plain fits ran
    cases ran
  | succ layers ih => exact castLayer_typed wellFormed (castWith_growing registry layers) ih

end Decode

namespace Registry.WellFormed

variable {registry : Registry}

/-- Whatever a registered name makes of a document is of its type, and so is everything inside. -/
theorem instantiate_typed (wellFormed : registry.WellFormed) {name : String} {entry : Entry}
    (held : registry.entry name = .ok entry) {json : Json} {names after : NameTable}
    {result : Value}
    (ran : (registry.instantiate name (.ofJson json)).run names = (.ok result, after)) :
    (¬PlainUnion entry.type entry.caster → registry.conforms result entry.type = true) ∧
      registry.ObjectsTyped result := by
  have fits := (wellFormed.entries name entry (Registry.found_ok.mp held)).fits
  unfold Registry.instantiate at ran
  rw [held] at ran
  have casted : (Decode.castFor registry entry.caster (.ofJson json) entry.caster
      (.ofJson json)).run names = (.ok result, after) := Decode.run_adapt_ok.mp ran
  have typed := Decode.castWith_typed wellFormed
    (Decode.layers registry entry.caster (.ofJson json))
  obtain ⟨inside, conforms⟩ := typed entry.type entry.caster _ result names after
    (Value.ofJson_plain json) fits casted
  exact ⟨fun none => conforms (fits.plainUnion_or.resolve_left none), inside⟩

end Registry.WellFormed

namespace Document

/-- Decoding with a registered name is sound for its type: without plain unions in the type the
result conforms to it, and all objects in the result are as their composite types declare. -/
theorem instantiate_sound {document : Document} {registry : Registry}
    (compiled : document.compile = .ok registry)
    {name : String} {entry : Entry} (held : registry.entry name = .ok entry) {json : Json}
    {names after : NameTable} {result : Value}
    (ran : (registry.instantiate name (.ofJson json)).run names = (.ok result, after)) :
    (¬PlainUnion entry.type entry.caster → registry.conforms result entry.type = true) ∧
      registry.ObjectsTyped result :=
  (compile_wellFormed compiled).instantiate_typed held ran

/-- People with a name and a home that has a street. -/
def people : Document where
  definitions := [("Person", ⟨[
    ("type", .string "object"),
    ("required", .array [.string "Name"]),
    ("properties", .object [
      ("Name", .object [("type", .string "string")]),
      ("Home", .object [
        ("type", .string "object"),
        ("properties", .object [("Street", .object [("type", .string "string")])])])])]⟩)]

def person : Json :=
  .object [("Name", .string "Ada"), ("Home", .object [("Street", .string "Main")])]

/-- Whether the person is decoded. -/
def decodesPerson (registry : Registry) : Bool :=
  match registry.entry "Person",
    ((registry.instantiate "Person" (.ofJson person)).run registry.names).1 with
  | .ok _, .ok _ => true
  | _, _ => false

theorem instantiate_sound_person :
    ∃ registry entry result after, people.compile = .ok registry ∧
      registry.entry "Person" = .ok entry ∧
      (registry.instantiate "Person" (.ofJson person)).run registry.names = (.ok result, after) ∧
      (¬PlainUnion entry.type entry.caster → registry.conforms result entry.type = true) ∧
      registry.ObjectsTyped result := by
  have decodes : (people.compile.map decodesPerson).toOption = some true := by decide +kernel
  cases compiled : people.compile with
  | error error =>
    rw [compiled] at decodes
    cases decodes
  | ok registry =>
    rw [compiled] at decodes
    replace decodes : decodesPerson registry = true := Option.some.inj decodes
    unfold decodesPerson at decodes
    split at decodes
    · rename_i entry result held ran
      exact ⟨registry, entry, result, _, rfl, held, Prod.ext ran rfl,
        instantiate_sound compiled held (Prod.ext ran rfl)⟩
    · cases decodes

end Document

end TypedSchema
