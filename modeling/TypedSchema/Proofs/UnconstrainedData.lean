import TypedSchema.Proofs.ConsistentBinding
import TypedSchema.Proofs.Decode.Rebuilding
import TypedSchema.Proofs.KeyPreservation
import TypedSchema.Proofs.Values.Narrowing

/-!
Data that no schema constrains. An attribute of no type in particular holds the plain data that was
read for it, however deep its object stands in what was decoded, so it is written as plain data is.
-/

namespace TypedSchema

open Relation (ReflTransGen)
open Value (Occurs)

/-! ## Attributes that take anything -/

/-- An attribute of no type in particular: a declared one, or any other one where the type takes
other data as it is. -/
def Composite.TakesAny (composite : Composite) (name : String) : Prop :=
  match composite.property? name with
  | some property => property.type = .any
  | none => ∃ way, composite.catchAll = some way ∧ way.type = .any

/-- What the members of an object give to an attribute that takes anything: nothing at all, or the
plain data of a member. -/
inductive Composite.GivenBy (composite : Composite) (members : Fields Json) (name : String) :
    Value → Prop where
  | absent (none : ∀ key ∈ Fields.names members, composite.attributeOf key ≠ name) :
    GivenBy composite members name .null
  | member {key : String} {given : Json} (listed : (key, given) ∈ members)
    (own : composite.attributeOf key = name) : GivenBy composite members name (.ofJson given)

/-- The keywords that the members of an object are read as. -/
def Composite.keywordsOf (composite : Composite) (members : Fields Json) : Fields Value :=
  Fields.ofList (composite.internalEntries (Fields.mapValues Value.ofJson members))

/-- Every object inside comes from one of the document, and has from it what it takes as it is. -/
def Registry.PassesThrough (registry : Registry) (json : Json) (result : Value) : Prop :=
  ∀ type attributes, Occurs (.object type attributes) result →
    ∃ composite members, registry.composite type = .ok composite ∧
      ReflTransGen Json.Child (.object members) json ∧
      ∀ entry ∈ attributes, composite.TakesAny entry.1 →
        composite.GivenBy members entry.1 entry.2

namespace Registry

variable {registry : Registry}

theorem PassesThrough.of_no_object {json : Json} {result : Value}
    (none : ∀ type attributes, ¬Occurs (.object type attributes) result) :
    registry.PassesThrough json result :=
  fun type attributes occurs => absurd occurs (none type attributes)

theorem PassesThrough.within {inner outer : Json} {result : Value}
    (passes : registry.PassesThrough inner result) (inside : ReflTransGen Json.Child inner outer) :
    registry.PassesThrough outer result := by
  intro type attributes occurs
  obtain ⟨composite, members, present, place, given⟩ := passes type attributes occurs
  exact ⟨composite, members, present, place.trans inside, given⟩

theorem PassesThrough.list {json : Json} {items : List Value}
    (each : ∀ item ∈ items, registry.PassesThrough json item) :
    registry.PassesThrough json (.list items) := by
  intro type attributes occurs
  cases occurs with
  | item member inner => exact each _ member type attributes inner

theorem PassesThrough.object {name : String} {composite : Composite} {members : Fields Json}
    {attributes : Fields Value} (present : registry.composite name = .ok composite)
    (given : ∀ entry ∈ attributes, composite.TakesAny entry.1 →
      composite.GivenBy members entry.1 entry.2)
    (each : ∀ entry ∈ attributes, registry.PassesThrough (.object members) entry.2) :
    registry.PassesThrough (.object members) (.object name attributes) := by
  intro type inside occurs
  cases occurs with
  | self => exact ⟨composite, members, present, .refl, given⟩
  | field member inner => exact each _ member type inside inner

end Registry

/-! ## Casts -/

namespace Value

theorem ofJson_eq_list {json : Json} {items : List Value} (same : ofJson json = .list items) :
    ∃ inner, json = .array inner ∧ items = inner.map ofJson := by
  cases json with
  | array inner =>
    rw [ofJson, list.injEq, ofJsonItems_eq] at same
    exact ⟨inner, rfl, same.symm⟩
  | integer value =>
    rw [ofJson, ofInt] at same
    split at same <;> cases same
  | _ => cases same

theorem ofJson_eq_map {json : Json} {entries : Fields Value} (same : ofJson json = .map entries) :
    ∃ members, json = .object members ∧ entries = Fields.mapValues ofJson members := by
  cases json with
  | object members =>
    rw [ofJson, map.injEq, ofJsonMembers_eq] at same
    exact ⟨members, rfl, same.symm⟩
  | integer value =>
    rw [ofJson, ofInt] at same
    split at same <;> cases same
  | _ => cases same

end Value

namespace Decode

open NameTable (Grows)

variable {registry : Registry} {cast : Cast} {names after : NameTable}

/-- A cast that lets the plain data of documents through. -/
def PassingCast (registry : Registry) (cast : Cast) : Prop :=
  ∀ (caster : Caster) (json : Json) (result : Value) (names after : NameTable), names.Sound →
    (cast caster (.ofJson json)).run names = (.ok result, after) →
      registry.PassesThrough json result

theorem CastTo.passes (passing : PassingCast registry cast) (sound : names.Sound)
    {caster : Caster} {json : Json} {result : Value}
    (casted : CastTo cast names after caster (.ofJson json) result) :
    registry.PassesThrough json result := by
  obtain ⟨start, stop, earlier, -, ran⟩ := casted
  exact passing caster json result start stop (sound.grow earlier) ran

theorem castScalar_no_object {type : Scalar} {value result : Value}
    (casted : castScalar type value = some result) (name : String) (attributes : Fields Value) :
    ¬Occurs (.object name attributes) result := by
  intro occurs
  cases type <;>
    · obtain ⟨_, -, rfl⟩ := Option.map_eq_some_iff.mp casted
      cases occurs

/-! ## Objects -/

theorem keyword_given {composite : Composite} {members : Fields Json} {entry : String × Value}
    (member : entry ∈ composite.keywordsOf members) :
    composite.GivenBy members entry.1 entry.2 := by
  have listed := (Fields.mem_insertAll member).resolve_right List.not_mem_nil
  obtain ⟨key, held, own⟩ := Composite.mem_internalEntries listed
  obtain ⟨⟨_, given⟩, read, same⟩ := List.mem_map.mp held
  obtain ⟨rfl, value⟩ := Prod.mk.inj same
  rw [← value]
  exact .member read own

theorem given_of_no_keyword {composite : Composite} {members : Fields Json} {name : String}
    (absent : name ∉ Fields.names (composite.keywordsOf members)) :
    composite.GivenBy members name .null := by
  refine .absent fun key member own => absent ?_
  obtain ⟨⟨_, given⟩, listed, rfl⟩ := List.mem_map.mp member
  rw [Composite.keywordsOf, Fields.mem_names_ofList, ← own]
  exact Fields.name_mem (List.mem_map_of_mem (List.mem_map_of_mem listed))

/-- What a property is supplied with was given by the members, or nothing was. -/
theorem supplied_given {composite : Composite} (own : composite.WellFormed registry)
    {name : String} {property : Property}
    (declared : Fields.get? composite.properties name = some property) {members : Fields Json}
    {given : Value} (supplied : property.supplied (composite.keywordsOf members) = some given) :
    composite.GivenBy members name given := by
  have table := own.properties name property declared
  rw [Property.supplied, table.name] at supplied
  split at supplied
  · rename_i found
    cases supplied
    exact keyword_given (Fields.mem_of_get? found)
  · rename_i absent default
    -- The default of a property that is not required is null.
    have null := table.default.resolve_left (by simp [default])
    rw [default, Default.value.injEq] at null
    rw [← Option.some.inj supplied, null]
    exact given_of_no_keyword (Fields.get?_eq_none_iff.mp absent)
  · cases supplied

/-- Every attribute was coerced, as its type declares it, from what the members gave for it. -/
theorem Filled.assigned {composite : Composite} (own : composite.WellFormed registry)
    {members : Fields Json} {attributes : Fields Value}
    (filled : Filled registry cast composite (composite.keywordsOf members) names after attributes)
    {name : String} {value : Value} (held : Fields.get? attributes name = some value) :
    ∃ step, composite.Assigns step ∧ step.name = name ∧
      composite.GivenBy members name step.value ∧
      Coerced registry cast names after step value := by
  cases declared : Fields.get? composite.properties name with
  | some property =>
    obtain ⟨given, result, supplied, found, coerced⟩ := filled.declared name property declared
    rw [held] at found
    cases found
    have same := (own.properties name property declared).name
    exact ⟨_, .declared (same ▸ declared) rfl rfl, same, supplied_given own declared supplied,
      coerced⟩
  | none =>
    -- An attribute that is not declared has a keyword of its own.
    have known := filled.only name (Fields.mem_names_iff.mpr ⟨value, held⟩)
    rw [Fields.mem_names_iff, declared] at known
    obtain ⟨given, keyword⟩ := Fields.mem_names_iff.mp (known.resolve_left (by simp))
    obtain ⟨catchAll, result, takes, found, coerced⟩ := filled.extra name given keyword declared
    rw [held] at found
    cases found
    exact ⟨_, .undeclared declared takes rfl rfl, rfl, keyword_given (Fields.mem_of_get? keyword),
      coerced⟩

/-- An attribute that takes anything keeps what it is assigned. -/
theorem Coerced.same {composite : Composite} {step : Assignment}
    (assigns : composite.Assigns step) (takes : composite.TakesAny step.name) {value : Value}
    (coerced : Coerced registry cast names after step value) : value = step.value := by
  have untyped : step.type = .any := by
    unfold Composite.TakesAny Composite.property? at takes
    cases assigns with
    | declared held type =>
      rw [held] at takes
      exact type.trans takes
    | undeclared absent own type =>
      rw [absent] at takes
      obtain ⟨way, same, any⟩ := takes
      cases own.symm.trans same
      exact type.trans any
  obtain ⟨_, _, -, -, ran⟩ := coerced
  rw [untyped, coerce_any] at ran
  cases ran
  rfl

theorem Coerced.passes (passing : PassingCast registry cast) (sound : names.Sound)
    {composite : Composite} {members : Fields Json} {step : Assignment} {name : String}
    (given : composite.GivenBy members name step.value) {value : Value}
    (coerced : Coerced registry cast names after step value) :
    registry.PassesThrough (.object members) value := by
  obtain ⟨argument, type, caster, assigned⟩ := step
  cases given with
  | absent =>
    -- Null is never cast.
    obtain ⟨_, _, -, -, ran⟩ := coerced
    cases ran
    exact .of_no_object Value.Plain.null.no_object
  | @member key inner listed =>
    have inside : ReflTransGen Json.Child inner (.object members) := .single (.member listed)
    -- No objects are in what is kept, as it is plain; those in a cast come from the member.
    cases coerced.cases with
    | inl kept =>
      rw [kept.2]
      exact .of_no_object (Value.ofJson_plain inner).no_object
    | inr casted => exact (casted.passes passing sound).within inside

theorem fromEntries_passes (wellFormed : registry.WellFormed) (growing : GrowingCast cast)
    (passing : PassingCast registry cast) (sound : names.Sound) {name : String}
    {composite : Composite} (present : Fields.get? registry.composites name = some composite)
    {members : Fields Json} {result : Value}
    (ran : (fromEntries registry cast composite (Fields.mapValues Value.ofJson members)).run names =
      (.ok result, after)) : registry.PassesThrough (.object members) result := by
  have own := (wellFormed.composites name composite present).2
  obtain ⟨attributes, rfl, filled⟩ := construct_filled wellFormed growing present
    (Fields.distinct_ofList _) ((fromEntries_ok sound).mp ran)
  -- The casts inside start once all keys have been read.
  have later := sound.grow (keywords_grows composite (Fields.mapValues Value.ofJson members) names)
  have assigned : ∀ entry ∈ attributes, ∃ step, composite.Assigns step ∧ step.name = entry.1 ∧
      composite.GivenBy members entry.1 step.value ∧ Coerced registry cast _ after step entry.2 :=
    fun entry listed => filled.assigned own (Fields.get?_of_mem filled.distinct listed)
  apply Registry.PassesThrough.object (Registry.found_ok.mpr present)
  · intro entry listed takes
    obtain ⟨step, assigns, same, given, coerced⟩ := assigned entry listed
    rw [coerced.same assigns (same ▸ takes)]
    exact given
  · intro entry listed
    obtain ⟨step, -, -, given, coerced⟩ := assigned entry listed
    exact coerced.passes passing later given

/-! ## All casts -/

theorem castLayer_passes (wellFormed : registry.WellFormed) (growing : GrowingCast cast)
    (passing : PassingCast registry cast) : PassingCast registry (castLayer registry cast) := by
  intro caster json result names after sound ran
  have plain := Value.ofJson_plain json
  -- Only composite types make objects; what is around them comes from casts of parts.
  cases caster with
  | identity =>
    cases castLayer_identity_ok ran
    exact .of_no_object plain.no_object
  | scalar type =>
    obtain ⟨casted, -⟩ := castLayer_scalar_ok.mp ran
    exact .of_no_object (castScalar_no_object casted)
  | list item =>
    obtain ⟨items, results, same, rfl, each⟩ := castLayer_list_ok growing ran
    obtain ⟨inner, rfl, rfl⟩ := Value.ofJson_eq_list same
    refine .list fun result listed => ?_
    obtain ⟨_, held, casted⟩ := Lists.source_of_result each listed
    obtain ⟨source, member, rfl⟩ := List.mem_map.mp held
    exact (casted.passes passing sound).within (.single (.item member))
  | enumeration name =>
    obtain ⟨⟨_, member, -, -, rfl⟩, -⟩ := castLayer_enumeration_ok.mp ran
    exact .of_no_object nofun
  | composite name =>
    obtain ⟨entries, composite, same, present, ran⟩ :=
      (castLayer_composite_ok wellFormed plain).mp ran
    obtain ⟨members, rfl, rfl⟩ := Value.ofJson_eq_map same
    exact fromEntries_passes wellFormed growing passing sound present ran
  | polymorph dispatcher =>
    obtain ⟨_, _, -, -, casted⟩ := castLayer_polymorph_ok plain ran
    exact casted.passes passing sound

theorem castWith_passes (wellFormed : registry.WellFormed) (layers : Nat) :
    PassingCast registry (castWith registry layers) := by
  induction layers with
  | zero =>
    intro caster json result names after sound ran
    cases ran
  | succ layers ih => exact castLayer_passes wellFormed (castWith_growing registry layers) ih

end Decode

/-! ## Schemas without constraints -/

/-- A schema for other keys that constrains nothing: the schema true, or one without any keyword
that gives a shape. -/
def Definition.LeavesOpen (definition : Definition) : Prop :=
  definition.additionalProperties? = some (.bool true) ∨
    ∃ schema inner, definition.additionalProperties? = some schema ∧
      Definition.ofJson schema = .ok inner ∧ inner.isUnconstrained = true

/-- An object type that takes anything wherever its definition constrains nothing: for the declared
properties with such schemas, and for all other keys. -/
structure Composite.OpenAs (composite : Composite) (definition : Definition) : Prop where
  declared : ∀ property ∈ Fields.values composite.properties,
    ∃ schema inner, (property.external, schema) ∈ definition.properties?.getD [] ∧
      Definition.ofJson schema = .ok inner ∧
      (inner.isUnconstrained = true → composite.TakesAny property.name)
  others : definition.LeavesOpen → ∀ name, composite.property? name = none →
    composite.TakesAny name

namespace Compile

variable {document : Document} {registry : Registry}

theorem Denotes.untyped {ownNodes : Prop} {patterns : Patterns} {definition : Definition}
    {hint : String} {resolved : Resolved}
    (denotes : Denotes ownNodes patterns registry definition hint resolved)
    (unconstrained : definition.isUnconstrained = true) : resolved = .anything := by
  cases denotes with
  | anything => rfl
  | shaped constrained =>
    rw [unconstrained] at constrained
    cases constrained

theorem BoundCatchAll.untyped {owner : String} {definition : Definition}
    {catchAll : Option CatchAll}
    (bound : BoundCatchAll document registry owner definition catchAll)
    (leaves : definition.LeavesOpen) : ∃ way, catchAll = some way ∧ way.type = .any := by
  cases bound with
  | anything => exact ⟨_, rfl, rfl⟩
  | refused absent =>
    -- A schema that refuses other keys is none that leaves them open.
    rcases leaves with anything | ⟨schema, inner, declared, node, -⟩
    · rcases absent with none | refused
      · cases none.symm.trans anything
      · cases refused.symm.trans anything
    · rcases absent with none | refused
      · cases none.symm.trans declared
      · cases refused.symm.trans declared
        cases node
  | schema own read denotes =>
    refine ⟨_, rfl, ?_⟩
    rcases leaves with anything | ⟨schema, inner, declared, node, unconstrained⟩
    · cases own.symm.trans anything
      cases read
    · cases own.symm.trans declared
      cases read.symm.trans node
      exact congrArg Resolved.type (denotes.untyped unconstrained)

theorem BoundProperty.untyped {owner : String} {required : Bool} {key : String} {schema : Json}
    {property : Property} {inner : Definition}
    (bound : BoundProperty False document registry owner required (key, schema) property)
    (node : Definition.ofJson schema = .ok inner) (unconstrained : inner.isUnconstrained = true) :
    property.type = .any := by
  obtain ⟨_, resolved, read, denotes, -, type⟩ := bound.typed
  cases read.symm.trans node
  rw [type, denotes.untyped unconstrained]
  -- What may be anything may be null anyway.
  cases required <;> rfl

theorem BoundTo.openAs {name : String} {definition : Definition} {composite : Composite}
    (own : composite.WellFormed registry)
    (bound : BoundTo document registry name definition composite) :
    composite.OpenAs definition := by
  constructor
  · intro property member
    -- The table has only what was made of entries of the definition.
    obtain ⟨properties, each, table⟩ := bound.properties
    have held := own.property_of_mem member
    have listed : (property.name, property) ∈ keyed properties := by
      have entry := Fields.mem_of_get? held
      rw [table] at entry
      exact (Fields.mem_insertAll entry).resolve_right List.not_mem_nil
    obtain ⟨other, made, same⟩ := List.mem_map.mp listed
    obtain ⟨-, rfl⟩ := Prod.mk.inj same
    obtain ⟨⟨key, schema⟩, declared, made⟩ := Lists.source_of_result each made
    obtain ⟨inner, -, node, -⟩ := made.typed
    refine ⟨schema, inner, made.external ▸ mem_bindingOrder.mp declared, node, ?_⟩
    intro unconstrained
    rw [Composite.TakesAny, Composite.property?, held]
    exact made.untyped node unconstrained
  · intro leaves name absent
    rw [Composite.TakesAny, absent]
    exact bound.catchAll.untyped leaves

end Compile

/-! ## Decoding -/

namespace Registry

variable {registry : Registry} {before after : NameTable} {json : Json} {result : Value}

/-- Data that a registered name makes of a document. -/
inductive Makes (registry : Registry) (before : NameTable) (json : Json) (result : Value)
    (after : NameTable) : Prop where
  | decoded {name : String}
    (ran : (registry.decode name (.ofJson json)).run before = (.ok result, after)) :
    Makes registry before json result after
  | instantiated {name : String}
    (ran : (registry.instantiate name (.ofJson json)).run before = (.ok result, after)) :
    Makes registry before json result after
  | discriminated {name : String}
    (ran : (registry.discriminate name (.ofJson json)).run before = (.ok result, after)) :
    Makes registry before json result after

theorem Makes.passes (wellFormed : registry.WellFormed) (sound : before.Sound)
    (makes : registry.Makes before json result after) : registry.PassesThrough json result := by
  have passing := Decode.castWith_passes wellFormed
  cases makes with
  | @decoded name ran =>
    rw [decode, wellFormed.compositeNamed] at ran
    obtain ⟨composite, present, ran⟩ := Decode.run_except_bind_ok.mp ran
    have plain := Value.ofJson_plain json
    generalize same : Value.ofJson json = value at plain ran
    cases plain with
    | map each =>
      obtain ⟨members, rfl, rfl⟩ := Value.ofJson_eq_map same
      exact Decode.fromEntries_passes wellFormed (Decode.castWith_growing registry _) (passing _)
        sound (Registry.found_ok.mp present) ran
    | _ => cases ran
  | @instantiated name ran =>
    obtain ⟨entry, -, ran⟩ := Decode.run_except_bind_ok.mp ran
    exact passing _ entry.caster json result _ _ sound (Decode.run_adapt_ok.mp ran)
  | @discriminated name ran =>
    obtain ⟨entry, -, ran⟩ := Decode.run_except_bind_ok.mp ran
    split at ran
    · rename_i dispatcher data polymorph same
      obtain ⟨branch, -, ran⟩ := Decode.run_except_bind_ok.mp ran
      rw [← same] at ran
      exact passing _ branch.caster json result _ after sound (Decode.run_adapt_ok.mp ran)
    · cases ran
    · cases ran

end Registry

/-! ## Written as read -/

/-- What a document holds for an attribute that takes anything is written as it was read, but for
integers above those of 64 bits. -/
inductive Composite.WrittenFrom (composite : Composite) (members : Fields Json) (name : String)
    (value : Value) : Prop where
  | absent (null : value = .null)
    (none : ∀ key ∈ Fields.names members, composite.attributeOf key ≠ name) :
    WrittenFrom composite members name value
  | member {key : String} {given : Json} (listed : (key, given) ∈ members)
    (own : composite.attributeOf key = name) (lifted : value = .ofJson given)
    (written : ∀ keyOf, value.toJson keyOf = .ok given.narrowed) :
    WrittenFrom composite members name value

theorem Composite.GivenBy.written {composite : Composite} {members : Fields Json} {name : String}
    {value : Value} (given : composite.GivenBy members name value)
    (held : (Json.object members).Held) : composite.WrittenFrom members name value := by
  cases given with
  | absent none => exact .absent rfl none
  | member listed own =>
    have inner := Json.Child.held (.member listed) held
    exact .member listed own rfl (Value.toJson_ofJson_held inner)

/-- What a document becomes once it is lifted and written: the same document with the same keys in
the same order, but for the integers that are above those of 64 bits, which become the nearest
numbers. -/
structure Json.Passes (json : Json) : Prop where
  written : ∀ keyOf, (Value.ofJson json).toJson keyOf = .ok json.narrowed
  same : json.narrowed = json ↔
    ∀ value, ReflTransGen Json.Child (.integer value) json → Value.isInteger value = true
  nearest : ∀ value, ReflTransGen Json.Child (.integer value) json →
    Value.isInteger value = false → 0x8000000000000000 ≤ value ∧
      (Binary64.ofInt value).isFinite = true ∧
      ∀ x : Binary64, |(Binary64.ofInt value).value - value| ≤ |x.value - value|
  keys : ∀ members, ReflTransGen Json.Child (.object members) json →
    ∃ others, (Json.object members).narrowed = .object others ∧
      Fields.names others = Fields.names members

theorem Json.Held.passes {json : Json} (held : json.Held) : json.Passes where
  written := Value.toJson_ofJson_held held
  same := Json.narrowed_eq_iff
  nearest := fun value inside wide =>
    have exact := held.exact value inside
    ⟨(Json.exact_not_integer_iff.mp ⟨exact, wide⟩).1, Json.narrowed_nearest exact wide⟩
  keys := fun members _ => ⟨_, by rw [Json.narrowed], Json.names_narrowedMembers members⟩

namespace Document

/-- Data that no schema constrains passes through. A document as it is held in memory is lifted and
written again with nothing changed but integers above those of 64 bits, which become the nearest
numbers, and it is the same exactly if it has none of these. Properties without a constraining
schema and keys that a schema leaves open get attributes that take anything; and in whatever is
decoded, each attribute that takes anything is written as the member that it was read from. -/
theorem unconstrained_passes {document : Document} {registry : Registry}
    (compiled : document.compile = .ok registry) :
    (∀ name entry, registry.entry name = .ok entry → entry.category = .custom →
      ∃ composite, registry.composite name = .ok composite ∧
        composite.OpenAs entry.definition) ∧
    ∀ json : Json, json.Held → json.Passes ∧
      ∀ before result after, registry.Reachable before →
        registry.Makes before json result after →
          ∀ type attributes, Occurs (.object type attributes) result →
            ∃ composite members, registry.composite type = .ok composite ∧
              ReflTransGen Json.Child (.object members) json ∧
              ∀ entry ∈ attributes, composite.TakesAny entry.1 →
                composite.WrittenFrom members entry.1 entry.2 := by
  have wellFormed := compile_wellFormed compiled
  constructor
  · intro name entry found category
    obtain ⟨composite, present, -, bound⟩ :=
      (compile_consistent compiled).objects name entry found category
    have own := (wellFormed.composites name composite (Registry.found_ok.mp present)).2
    exact ⟨composite, present, bound.openAs own⟩
  · intro json held
    refine ⟨held.passes, fun before result after reached makes type attributes occurs => ?_⟩
    obtain ⟨composite, members, present, inside, given⟩ :=
      makes.passes wellFormed (wellFormed.reachable_sound reached) type attributes occurs
    -- What the object was read from stands in the document, so it is held in the same way.
    exact ⟨composite, members, present, inside, fun entry listed takes =>
      (given entry listed takes).written (held.within inside)⟩

/-- A bag with the greatest integer of 64 bits that have no sign. -/
def wideBag : Fields Json :=
  [("Name", .string "Ada"), ("Size", .integer 0xFFFFFFFFFFFFFFFF)]

theorem widest_held : (Json.integer 0xFFFFFFFFFFFFFFFF).Held := by
  refine .single nofun nofun ?_
  rintro _ ⟨⟩
  decide

theorem wideBag_held : (Json.object wideBag).Held :=
  .object (by decide) (List.forall_mem_cons.mpr ⟨.single nofun nofun nofun,
    List.forall_mem_singleton.mpr widest_held⟩)

/-- Whether a decoded bag is an object that has an undeclared size. -/
def takesSize (composite : Composite) : Value → Bool
  | .object "Bag" attributes =>
    (composite.property? "size").isNone && (Fields.get? attributes "size").isSome
  | _ => false

theorem unconstrained_passes_wideBag :
    ∃ registry composite attributes value after members, bags.compile = .ok registry ∧
      (Json.object wideBag).Held ∧ registry.Reachable registry.names ∧
      registry.Makes registry.names (.object wideBag) (.object "Bag" attributes) after ∧
      registry.composite "Bag" = .ok composite ∧ ("size", value) ∈ attributes ∧
      composite.TakesAny "size" ∧ composite.WrittenFrom members "size" value := by
  have takes : ((decodeBag wideBag).map fun (composite, result, _) =>
      takesSize composite result).toOption = some true := by decide +kernel
  cases decoded : decodeBag wideBag with
  | error error =>
    rw [decoded] at takes
    cases takes
  | ok outcome =>
    obtain ⟨composite, result, after⟩ := outcome
    rw [decoded] at takes
    replace takes : takesSize composite result = true := Option.some.inj takes
    obtain ⟨registry, compiled, present, ran⟩ := decodeBag_ok decoded
    obtain ⟨constrained, data⟩ := unconstrained_passes compiled
    obtain ⟨entry, registered, -, same, shape⟩ :=
      (compile_consistent compiled).listed "Bag" _ List.mem_cons_self
    have object : entry.category = .custom := (Except.ok.inj shape).symm
    unfold takesSize at takes
    split at takes
    · rename_i attributes
      rw [Bool.and_eq_true, Option.isNone_iff_eq_none, Option.isSome_iff_exists] at takes
      obtain ⟨undeclared, value, size⟩ := takes
      obtain ⟨own, found, opens⟩ := constrained "Bag" entry registered object
      cases present.symm.trans found
      have anything := opens.others (same ▸ .inl rfl) "size" undeclared
      obtain ⟨_, members, found, -, written⟩ := (data _ wideBag_held).2 _ _ after .start
        (.decoded ran) "Bag" attributes .self
      cases present.symm.trans found
      have listed := Fields.mem_of_get? size
      exact ⟨registry, composite, attributes, value, after, members, compiled, wideBag_held,
        .start, .decoded ran, present, listed, anything,
        written _ listed anything⟩
    · cases takes

/-- That integer does not come back. -/
theorem lifting_rounds :
    (Json.integer 0xFFFFFFFFFFFFFFFF).Held ∧ ∀ keyOf,
      (Value.ofJson (.integer 0xFFFFFFFFFFFFFFFF)).toJson keyOf =
        .ok (.float (.ofInt 0xFFFFFFFFFFFFFFFF)) ∧
      (Value.ofJson (.integer 0xFFFFFFFFFFFFFFFF)).toJson keyOf ≠
        .ok (.integer 0xFFFFFFFFFFFFFFFF) := by
  refine ⟨widest_held, fun keyOf => ?_⟩
  have written := Value.toJson_ofJson_held widest_held keyOf
  rw [Json.narrowed, if_neg (by decide)] at written
  exact ⟨written, by rw [written]; nofun⟩

end Document

end TypedSchema
