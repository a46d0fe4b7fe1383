import TypedSchema.Proofs.Compile.Compiled
import TypedSchema.Proofs.Decode.Casting
import TypedSchema.Proofs.Values.Rereading

/-!
Keys of documents and the attributes that they are stored under. A key comes back from its attribute
unless it meets a declared property or another key there; what decides is stated exactly, together
with what follows for the whole object when every key comes back.
-/

namespace TypedSchema

namespace Naming

/-- Which keys conversion carries to an attribute and back, given the special names. -/
def Carries (special : SpecialNames) (key : String) : Prop :=
  isIdentifier key ≠ true ∨ Escaped key ∨
    (isIdentifier (snake key) = true ∧ snake key ∉ special ∧
      join (snake key).toList = key.toList)

/-- Conversion gives a key back exactly if it carries it, once the key itself is special if it has
to be. -/
theorem snakeToPascal_snake_iff {special : SpecialNames} (sound : Sound special) {key : String}
    (settled : Escaped key → key ∈ special) :
    snakeToPascal (snake key) special = key ↔ Carries special key := by
  by_cases identifier : isIdentifier key = true
  · by_cases escaped : Escaped key
    · rw [snake_of_escaped escaped, snakeToPascal_of_mem (settled escaped)]
      simp [Carries, escaped]
    · have absent : key ∉ special := fun held => escaped (sound key held)
      have carries : Carries special key ↔ isIdentifier (snake key) = true ∧
          snake key ∉ special ∧ join (snake key).toList = key.toList := by
        simp [Carries, identifier, escaped]
      rw [carries]
      by_cases plain : isIdentifier (snake key) = true
      · by_cases held : snake key ∈ special
        · -- A special attribute is its own key, and the key itself is not special.
          rw [snakeToPascal_of_mem held]
          constructor
          · intro same
            rw [same] at held
            exact absurd held absent
          · rintro ⟨-, fresh, -⟩
            exact absurd held fresh
        · rw [snakeToPascal_of_not_mem held plain]
          constructor
          · intro same
            have letters := congrArg String.toList same
            rw [String.toList_ofList] at letters
            exact ⟨plain, held, letters⟩
          · rintro ⟨-, -, same⟩
            rw [same, String.ofList_toList]
      · rw [snakeToPascal_of_not_identifier plain]
        constructor
        · intro same
          rw [same] at plain
          exact absurd identifier plain
        · rintro ⟨impossible, -⟩
          exact absurd impossible plain
  · rw [snake_of_not_identifier identifier, snakeToPascal_of_not_identifier identifier]
    simp [Carries, identifier]

end Naming

namespace Composite

/-- Which keys have an attribute of their own: those that are declared, and those that conversion
carries past the declared properties. -/
def Carries (composite : Composite) (special : SpecialNames) (key : String) : Prop :=
  (∀ property ∈ Fields.values composite.properties, property.external ≠ key) →
    composite.property? (Naming.snake key) = none ∧ Naming.Carries special key

theorem returned_iff {registry : Registry} {composite : Composite}
    (own : composite.WellFormed registry) {special : SpecialNames} (sound : Naming.Sound special)
    {key : String} (settled : composite.Escapes key → key ∈ special) :
    composite.returned special key = key ↔ composite.Carries special key := by
  unfold returned
  rw [internalName_fst sound]
  cases declared : composite.declaring? key with
  | some property =>
    have held := own.property_of_mem (declaring?_mem declared)
    have external := declaring?_external declared
    rw [attributeOf_of_declared declared, externalName, property?, held]
    simp only [external, true_iff]
    intro none
    exact absurd external (none property (declaring?_mem declared))
  | none =>
    have undeclared := declaring?_eq_none_iff.mp declared
    have carries : composite.Carries special key ↔
        composite.property? (Naming.snake key) = none ∧ Naming.Carries special key :=
      ⟨fun carries => carries undeclared, fun held _ => held⟩
    rw [attributeOf_of_undeclared declared, externalName, carries]
    cases met : composite.property? (Naming.snake key) with
    | some property =>
      have other := undeclared property (Fields.value_mem (Fields.mem_of_get? met))
      simp [other]
    | none =>
      have converted := Naming.snakeToPascal_snake_iff sound fun escaped =>
        settled ⟨declared, escaped⟩
      simpa using converted

end Composite

/-! ## Decoded objects -/

namespace Value

theorem mem_names_toEntries {keyOf : KeyOf} {type name : String} {attributes : Fields Value}
    (member : name ∈ Fields.names attributes) :
    keyOf type name ∈ Fields.names (toEntries keyOf type attributes) := by
  rw [toEntries, Fields.mem_names_ofList, names_plainAttributes]
  exact List.mem_map_of_mem member

end Value

namespace Composite

/-- Every key of an object is kept: it has an attribute of its own, apart from those of declared
properties unless it is declared, and it is written again. -/
structure KeepsKeys (registry : Registry) (composite : Composite) (names : NameTable)
    (keys : List String) (attributes : Fields Value) : Prop where
  apart : ∀ first ∈ keys, ∀ second ∈ keys,
    (composite.internalName first (names.of composite.name)).1 =
      (composite.internalName second (names.of composite.name)).1 → first = second
  undeclared : ∀ key ∈ keys,
    (∀ property ∈ Fields.values composite.properties, property.external ≠ key) →
      composite.property? (composite.internalName key (names.of composite.name)).1 = none
  stored : ∀ key ∈ keys,
    (composite.internalName key (names.of composite.name)).1 ∈ Fields.names attributes
  written : ∀ key ∈ keys,
    key ∈ Fields.names (Value.toEntries (registry.keyOf names) composite.name attributes)

end Composite

namespace Decode

variable {registry : Registry} {cast : Cast} {before after : NameTable}

/-- After plain data was decoded its keys come back exactly if they are carried, and then the object
keeps all of them. -/
theorem fromEntries_keys (wellFormed : registry.WellFormed) (growing : GrowingCast cast)
    (sound : before.Sound) {name : String} {composite : Composite}
    (present : Fields.get? registry.composites name = some composite) {entries : Fields Value}
    {result : Value}
    (ran : (fromEntries registry cast composite entries).run before = (.ok result, after)) :
    ∃ attributes, result = .object name attributes ∧
      ((∀ key ∈ Fields.names entries, composite.returned (after.of name) key = key) ↔
        ∀ key ∈ Fields.names entries, composite.Carries (after.of name) key) ∧
      ((∀ key ∈ Fields.names entries, composite.Carries (after.of name) key) →
        composite.KeepsKeys registry after (Fields.names entries) attributes) := by
  obtain ⟨rfl, own⟩ := wellFormed.composites name composite present
  have afterSound : Naming.Sound (after.of composite.name) :=
    sound.grow ((fromEntries_growing growing composite entries).of_run ran) composite.name
  obtain ⟨attributes, rfl, filled⟩ := construct_filled wellFormed growing present
    (Fields.distinct_ofList _) ((fromEntries_ok sound).mp ran)
  have returns : ∀ key ∈ Fields.names entries,
      (composite.returned (after.of composite.name) key = key ↔
        composite.Carries (after.of composite.name) key) := fun key member =>
    Composite.returned_iff own afterSound (fromEntries_settled growing ran key member)
  refine ⟨attributes, rfl, forall₂_congr returns, fun carries => ?_⟩
  have internal : ∀ key, (composite.internalName key (after.of composite.name)).1 =
      composite.attributeOf key := fun key => Composite.internalName_fst afterSound composite key
  have back : ∀ key ∈ Fields.names entries,
      composite.externalName (composite.attributeOf key) (after.of composite.name) = key := by
    intro key member
    have same := (returns key member).mpr (carries key member)
    rwa [Composite.returned, internal] at same
  have stored : ∀ key ∈ Fields.names entries,
      composite.attributeOf key ∈ Fields.names attributes := by
    intro key member
    obtain ⟨entry, held, rfl⟩ := List.mem_map.mp member
    exact filled.stored (Fields.mem_names_ofList.mpr
      (Fields.name_mem (List.mem_map.mpr ⟨entry, held, rfl⟩)))
  constructor
  · intro first firstMember second secondMember same
    rw [internal, internal] at same
    rw [← back first firstMember, same, back second secondMember]
  · intro key member undeclared
    rw [internal, Composite.attributeOf_of_undeclared
      (Composite.declaring?_eq_none_iff.mpr undeclared)]
    exact (carries key member undeclared).1
  · intro key member
    rw [internal]
    exact stored key member
  · intro key member
    have own : registry.keyOf after composite.name (composite.attributeOf key) = key := by
      rw [Registry.keyOf, present]
      exact back key member
    rw [← own]
    exact Value.mem_names_toEntries (stored key member)

end Decode

namespace Document

/-- Which keys survive decoding. The keys of an object that was decoded, whatever was decoded with
the registry before, come back from their attributes exactly if no undeclared one meets a declared
property or a special name. In that case none is lost or merged. -/
theorem decode_keys {document : Document} {registry : Registry}
    (compiled : document.compile = .ok registry)
    {before after : NameTable} (reached : registry.Reachable before) {name : String}
    {members : Fields Json} {result : Value}
    (ran : (registry.decode name (.ofJson (.object members))).run before = (.ok result, after)) :
    ∃ composite attributes, registry.composite name = .ok composite ∧
      result = .object name attributes ∧
      ((∀ key ∈ Fields.names members, composite.returned (after.of name) key = key) ↔
        ∀ key ∈ Fields.names members, composite.Carries (after.of name) key) ∧
      ((∀ key ∈ Fields.names members, composite.Carries (after.of name) key) →
        composite.KeepsKeys registry after (Fields.names members) attributes) := by
  have wellFormed := compile_wellFormed compiled
  unfold Registry.decode at ran
  rw [wellFormed.compositeNamed] at ran
  obtain ⟨composite, _, found, ran⟩ := Decode.run_bind_ok.mp ran
  rw [Decode.run_except, Decode.outcome_eq_iff] at found
  obtain ⟨present, rfl⟩ := found
  have growing := Decode.castWith_growing registry (Decode.layers registry
    (.composite composite.name) (.ofJson (.object members)))
  obtain ⟨attributes, same, keys⟩ := Decode.fromEntries_keys wellFormed growing
    (wellFormed.reachable_sound reached) (Registry.found_ok.mp present) ran
  rw [Value.names_ofJsonMembers] at keys
  exact ⟨composite, attributes, present, same, keys⟩

/-- Bags with a name and anything else. -/
def bags : Document where
  definitions := [("Bag", ⟨[
    ("type", .string "object"),
    ("properties", .object [("Name", .object [("type", .string "string")])]),
    ("additionalProperties", .bool true)]⟩)]

/-- The type of bags, what the members of one are decoded as, and the special names afterwards. -/
def decodeBag (members : Fields Json) : Except Error (Composite × Value × NameTable) := do
  let registry ← bags.compile
  let composite ← registry.composite "Bag"
  let outcome := (registry.decode "Bag" (.ofJson (.object members))).run registry.names
  return (composite, ← outcome.1, outcome.2)

theorem decodeBag_ok {members : Fields Json} {composite : Composite} {result : Value}
    {after : NameTable} (decoded : decodeBag members = .ok (composite, result, after)) :
    ∃ registry, bags.compile = .ok registry ∧ registry.composite "Bag" = .ok composite ∧
      (registry.decode "Bag" (.ofJson (.object members))).run registry.names =
        (.ok result, after) := by
  obtain ⟨registry, compiled, rest⟩ := Outcomes.bind_ok.mp decoded
  obtain ⟨found, present, rest⟩ := Outcomes.bind_ok.mp rest
  obtain ⟨value, ran, last⟩ := Outcomes.bind_ok.mp rest
  cases last
  exact ⟨registry, compiled, present, Prod.ext ran rfl⟩

def sizedBag : Fields Json :=
  [("Name", .string "Ada"), ("Size", .integer 3)]

theorem decode_keys_sizedBag :
    ∃ registry result after composite attributes, bags.compile = .ok registry ∧
      registry.Reachable registry.names ∧
      (registry.decode "Bag" (.ofJson (.object sizedBag))).run registry.names =
        (.ok result, after) ∧
      registry.composite "Bag" = .ok composite ∧ result = .object "Bag" attributes ∧
      ((∀ key ∈ Fields.names sizedBag, composite.returned (after.of "Bag") key = key) ↔
        ∀ key ∈ Fields.names sizedBag, composite.Carries (after.of "Bag") key) ∧
      ((∀ key ∈ Fields.names sizedBag, composite.Carries (after.of "Bag") key) →
        composite.KeepsKeys registry after (Fields.names sizedBag) attributes) := by
  have decodes : (decodeBag sizedBag).toOption.isSome = true := by decide +kernel
  cases decoded : decodeBag sizedBag with
  | error error =>
    rw [decoded] at decodes
    cases decodes
  | ok outcome =>
    obtain ⟨_, result, after⟩ := outcome
    obtain ⟨registry, compiled, -, ran⟩ := decodeBag_ok decoded
    obtain ⟨composite, attributes, present, same, keys⟩ := decode_keys compiled .start ran
    exact ⟨registry, result, after, composite, attributes, compiled, .start, ran, present, same,
      keys⟩

def clashingBag : Fields Json :=
  [("Name", .string "Ada"), ("name", .string "ada")]

/-- Two keys that differ in case meet in one attribute, and only the declared one comes back. -/
theorem decode_merges_keys :
    ∃ registry composite result after, bags.compile = .ok registry ∧
      registry.composite "Bag" = .ok composite ∧
      (registry.decode "Bag" (.ofJson (.object clashingBag))).run registry.names =
        (.ok result, after) ∧
      composite.returned (after.of "Bag") "name" = "Name" ∧
      composite.returned (after.of "Bag") "name" ≠ "name" := by
  have returns : ((decodeBag clashingBag).map fun (composite, _, after) =>
      composite.returned (after.of "Bag") "name").toOption = some "Name" := by decide +kernel
  cases decoded : decodeBag clashingBag with
  | error error =>
    rw [decoded] at returns
    cases returns
  | ok outcome =>
    obtain ⟨composite, result, after⟩ := outcome
    rw [decoded] at returns
    obtain ⟨registry, compiled, present, ran⟩ := decodeBag_ok decoded
    have other : composite.returned (after.of "Bag") "name" = "Name" := Option.some.inj returns
    exact ⟨registry, composite, result, after, compiled, present, ran, other, by rw [other]; decide⟩

end Document

end TypedSchema
