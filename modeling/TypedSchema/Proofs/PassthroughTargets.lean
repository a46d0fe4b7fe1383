import TypedSchema.Proofs.Compile.References
import TypedSchema.Proofs.ConsistentBinding
import TypedSchema.Proofs.Decode.Renaming
import TypedSchema.Proofs.Registry.Subtyping
import TypedSchema.Proofs.Respelling

/-!
Definitions that only refer to others. Whatever such a definition leads to in the end, it stands for
the same type, or is a type of its own that takes the same data and gives its objects the same
attributes. The special names of the two types are not shared, so what was decoded may be written
differently: where an attribute has become special for only one of them.
-/

namespace TypedSchema

open Relation (TransGen)

/-! ## Writing by another name -/

namespace Naming

/-- Names are written alike, unless they are special in one place only and differ from their
words. -/
theorem snakeToPascal_eq {name : String} {special other : SpecialNames} (sound : Sound special)
    (alsoSound : Sound other)
    (alike : Escaped name → join name.toList ≠ name.toList → (name ∈ special ↔ name ∈ other)) :
    snakeToPascal name special = snakeToPascal name other := by
  by_cases same : name ∈ special ↔ name ∈ other
  · have contains : special.contains name = other.contains name := by
      rw [Bool.eq_iff_iff, SpecialNames.contains_iff, SpecialNames.contains_iff, same]
    simp only [snakeToPascal, contains]
  · have escaped : Escaped name := by
      by_cases held : name ∈ special
      · exact sound name held
      · by_contra plain
        exact same ⟨fun also => absurd also held, fun also => absurd (alsoSound name also) plain⟩
    have spelled : join name.toList = name.toList := by
      by_contra differs
      exact same (alike escaped differs)
    -- Whether it is special or not, it is written as it is.
    have either : ∀ names, snakeToPascal name names = name := by
      intro names
      by_cases held : name ∈ names
      · exact snakeToPascal_of_mem held
      · rw [snakeToPascal_of_not_mem held escaped.1, spelled, String.ofList_toList]
    rw [either, either]

end Naming

namespace Registry

variable {registry : Registry}

/-- An attribute that no property of its type declares, that is special in one of the tables only,
and that is written as its words where it is not. -/
structure Parts (registry : Registry) (first second : NameTable) (type other name : String) :
    Prop where
  undeclared : ∀ composite, Fields.get? registry.composites type = some composite →
    composite.property? name = none
  escaped : Naming.Escaped name
  differs : Naming.join name.toList ≠ name.toList
  once : ¬(name ∈ first.of type ↔ name ∈ second.of other)

section

variable {first second : NameTable} (here : first.Sound) (there : second.Sound)

include here there

/-- Types with the same table write an attribute alike, unless it is special for one only. -/
theorem keyOf_renamed {type other : String} {composite target : Composite}
    (present : Fields.get? registry.composites type = some composite)
    (also : Fields.get? registry.composites other = some target)
    (properties : composite.properties = target.properties) {name : String}
    (alike : ¬registry.Parts first second type other name) :
    registry.keyOf first type name = registry.keyOf second other name := by
  simp only [keyOf, present, also, Composite.externalName, Composite.property?, properties]
  cases declared : Fields.get? target.properties name with
  | some property => rfl
  | none =>
    refine Naming.snakeToPascal_eq (here type) (there other) fun escaped differs => ?_
    by_contra once
    refine alike ⟨fun own held => ?_, escaped, differs, once⟩
    rw [present] at held
    cases held
    rw [Composite.property?, properties, declared]

theorem keyOf_same {type name : String} (alike : ¬registry.Parts first second type type name) :
    registry.keyOf first type name = registry.keyOf second type name := by
  cases present : Fields.get? registry.composites type with
  | some composite => exact keyOf_renamed here there present present rfl alike
  | none =>
    simp only [keyOf, present]
    refine Naming.snakeToPascal_eq (here type) (there type) fun escaped differs => ?_
    by_contra once
    refine alike ⟨fun own held => ?_, escaped, differs, once⟩
    rw [present] at held
    cases held

end

end Registry

/-! ## Decoding by another name -/

namespace Registry

open Decode

variable {registry : Registry} (wellFormed : registry.WellFormed) {name target : String}
  {composite other : Composite} (present : Fields.get? registry.composites name = some composite)
  (also : Fields.get? registry.composites target = some other)

include wellFormed present also

/-- A document is taken by both types, which give it the same attributes, or by neither. -/
theorem decode_renamed (renames : composite.Renames other) (json : Json) {first second : NameTable}
    (here : first.Sound) (there : second.Sound) :
    SameAttributes name target ((registry.decode name (.ofJson json)).run first).1
      ((registry.decode target (.ofJson json)).run second).1 := by
  have plain := Value.ofJson_plain json
  rw [wellFormed.decode_eq present, wellFormed.decode_eq also]
  cases shape : Value.ofJson json with
  | map entries =>
    rw [shape] at plain
    have steady := castWith_steady wellFormed (.sound_tables fun _ => True)
      (layers registry (.composite name) (.map entries))
    have filled := fromEntries_renamed wellFormed steady also renames plain.objectless here there
    rw [(wellFormed.composites name composite present).1,
      (wellFormed.composites target other also).1] at filled
    exact filled
  | object =>
    rw [shape] at plain
    cases plain
  | _ => exact .rejected _ _

theorem decode_renamed_names (renames : composite.Renames other) (json : Json) {names : NameTable}
    (sound : names.Sound) (type special : String) :
    (type ≠ name →
      special ∈ ((registry.decode name (.ofJson json)).run names).2.of type →
        special ∈ ((registry.decode target (.ofJson json)).run names).2.of type) ∧
    (type ≠ target →
      special ∈ ((registry.decode target (.ofJson json)).run names).2.of type →
        special ∈ ((registry.decode name (.ofJson json)).run names).2.of type) := by
  have plain := Value.ofJson_plain json
  rw [wellFormed.decode_eq present, wellFormed.decode_eq also]
  cases shape : Value.ofJson json with
  | map entries =>
    rw [shape] at plain
    have steady := castWith_steady wellFormed (.sound_tables fun _ => True)
      (layers registry (.composite name) (.map entries))
    have added := fromEntries_renamed_names wellFormed steady also renames plain.objectless sound
      type special
    rw [(wellFormed.composites name composite present).1,
      (wellFormed.composites target other also).1] at added
    exact added
  | object =>
    rw [shape] at plain
    cases plain
  | _ => exact ⟨fun _ => id, fun _ => id⟩

end Registry

/-! ## Where references lead -/

/-- A definition that only refers to another name. -/
def Document.RefersOn (document : Document) (name target : String) : Prop :=
  ∃ definition, (name, definition) ∈ document.definitions ∧
    definition.shape = .ok .passthrough ∧ definition.referenceName? = some target

/-- What a name is registered as that leads to another one: the same, or a composite type that is the
other one under a name of its own. -/
inductive Registry.StandsFor (registry : Registry) (name target : String) : Prop where
  | synonym {entry other : Entry} (own : Fields.get? registry.entries name = some entry)
    (theirs : Fields.get? registry.entries target = some other)
    (plain : ∀ parent, other.type ≠ .composite parent) (type : entry.type = other.type)
    (caster : entry.caster = other.caster)
  | heir {entry other : Entry} {composite above : Composite}
    (own : Fields.get? registry.entries name = some entry)
    (theirs : Fields.get? registry.entries target = some other)
    (ownType : entry.type = .composite name) (theirType : other.type = .composite target)
    (present : Fields.get? registry.composites name = some composite)
    (also : Fields.get? registry.composites target = some above)
    (renames : composite.Renames above) (inherits : TransGen registry.ParentOf name target)

theorem Registry.StandsFor.trans {registry : Registry} {first second third : String}
    (earlier : registry.StandsFor first second) (later : registry.StandsFor second third) :
    registry.StandsFor first third := by
  cases earlier with
  | synonym own theirs plain type caster =>
    cases later with
    | synonym middle last simple sameType sameCaster =>
      rw [theirs] at middle
      cases middle
      exact .synonym own last simple (type.trans sameType) (caster.trans sameCaster)
    | heir middle _ middleType =>
      rw [theirs] at middle
      cases middle
      exact absurd middleType (plain _)
  | heir own theirs ownType theirType present also renames inherits =>
    cases later with
    | synonym middle _ simple sameType =>
      rw [theirs] at middle
      cases middle
      exact absurd (sameType.symm.trans theirType) (simple _)
    | heir middle last _ lastType middlePresent lastPresent further upwards =>
      rw [also] at middlePresent
      cases middlePresent
      exact .heir own last ownType lastType present lastPresent (renames.trans further)
        (inherits.trans upwards)

namespace Compile

section

variable {document : Document} {workspace : Workspace} {registry : Registry}
  (compiled : Compiled document workspace registry)

include compiled

/-- A type that inherits all from one other type is that type under its own name. -/
theorem Compiled.renames {name parent : String} {old : Composite}
    (started : Fields.get? workspace.registry.composites name = some old)
    (lineage : old.lineage = .passthrough parent) :
    ∃ composite above, Fields.get? registry.composites name = some composite ∧
      Fields.get? registry.composites parent = some above ∧ composite.Renames above ∧
      registry.ParentOf name parent := by
  obtain ⟨composite, present⟩ := Fields.mem_names_iff.mp
    (compiled.completed.names name (Fields.mem_names_iff.mpr ⟨old, started⟩))
  obtain ⟨-, -, before, same, kept, -⟩ := compiled.completed.composites name composite present
  rw [started] at same
  cases same
  have inherits := compiled.inherits present
  rw [lineage] at kept
  cases inherits with
  | custom custom =>
    rw [kept] at custom
    cases custom
  | combined combined =>
    rw [kept] at combined
    cases combined
  | passthrough single found _ properties catchAll initializer special =>
    rw [kept] at single
    cases single
    refine ⟨composite, _, present, found, ⟨properties, catchAll, initializer, ?_⟩,
      composite, present, ?_⟩
    · intro other
      rw [special, SpecialNames.mem_union]
      exact ⟨fun either => either.resolve_left List.not_mem_nil, .inr⟩
    · rw [Composite.parents, kept]
      exact List.mem_singleton_self parent

/-- What refers to another name stands for it. -/
theorem Compiled.standsFor {name target : String} {entry : Entry}
    (present : Fields.get? registry.entries name = some entry)
    (category : entry.category = .passthrough)
    (referred : entry.definition.referenceName? = some target) :
    registry.StandsFor name target := by
  have registered := present
  rw [compiled.completed.entries] at registered
  obtain ⟨past, lineage, order, made, table⟩ :=
    (compiled.sound.entries name entry registered).made.history
  rw [category] at made
  generalize resolution : (⟨entry.type, entry.caster⟩ : Resolved) = resolved at made
  cases made with
  | shaped _ other => exact absurd rfl other
  | synonym found earlier plain =>
    rw [referred] at found
    cases found
    obtain ⟨type, caster⟩ := Resolved.mk.inj resolution
    have there := order.entries _ _ earlier
    rw [← compiled.completed.entries] at there
    exact .synonym present there plain type caster
  | heir found earlier typed =>
    rw [referred] at found
    cases found
    have there := order.entries _ _ earlier
    obtain rfl := (compiled.sound.entries _ _ there).composite _ typed
    rw [← compiled.completed.entries] at there
    obtain ⟨old, started, same⟩ := Option.map_eq_some_iff.mp table
    obtain ⟨composite, above, own, theirs, renames, link⟩ :=
      compiled.renames started (Prod.mk.inj same).1
    exact .heir present there (congrArg Resolved.type resolution) typed own theirs renames
      (.single link)

end

/-- Objects and types put together are the composite types besides references. -/
theorem Made.composite_iff {document : Document} {past : Registry} {name : String}
    {definition : Definition} {category : Category} {resolved : Resolved} {lineage : Option Lineage}
    (made : Made document past name definition category resolved lineage)
    (other : category ≠ .passthrough) :
    (∃ parent, resolved.type = .composite parent) ↔
      category = .custom ∨ category = .multiInheritance := by
  cases made with
  | custom => simp
  | enumeration => simp
  | heir => exact absurd rfl other
  | synonym => exact absurd rfl other
  | combined => simp
  | shaped inPlace _ inner =>
    have none := inner.ne_composite other inPlace
    constructor
    · rintro ⟨parent, typed⟩
      exact absurd typed (none parent)
    · rintro (rfl | rfl) <;> cases inPlace

end Compile

namespace Registry

/-- The special names after a document was decoded by a name. -/
def namesAfter (registry : Registry) (names : NameTable) (name : String) (json : Json) :
    NameTable :=
  ((registry.decode name (.ofJson json)).run names).2

/-- Data none of whose keys conversion leaves alone adds no special names. -/
theorem mem_namesAfter {registry : Registry} (wellFormed : registry.WellFormed) {names : NameTable}
    (sound : names.Sound) {json : Json}
    (converted : ∀ key, (Value.ofJson json).HasKey key → ¬Naming.Escaped key)
    (name type special : String) :
    special ∈ (registry.namesAfter names name json).of type ↔ special ∈ names.of type := by
  have grows := (registry.decode_growing name (.ofJson json)).grows names
  constructor
  · intro member
    have steady : Decode.SteadyRun NameTable.Sound (fun key => (Value.ofJson json).HasKey key)
        (registry.decodeOne (name, json)) := decodeOne_steady wellFormed fun _ => id
    rcases steady.keys names sound type special member with held | key
    · exact held
    · exact (grows.fresh type special member).resolve_right (converted special key)
  · exact grows.kept type special

/-- A composite type that behaves as another one. It takes the same documents and gives its objects
the same attributes, and decoding makes the same names special, apart from those of the two types
themselves. Objects are written alike unless an attribute is special for one of them only, which
is not so at first if conversion leaves no key alone. -/
structure Behaves (registry : Registry) (name target : String) : Prop where
  subtype : registry.isSubtype name target = true
  decoded : ∀ json first second, registry.Reachable first → registry.Reachable second →
    SameAttributes name target ((registry.decode name (.ofJson json)).run first).1
      ((registry.decode target (.ofJson json)).run second).1
  special : ∀ json names, registry.Reachable names → ∀ type special,
    (type ≠ name → special ∈ (registry.namesAfter names name json).of type →
      special ∈ (registry.namesAfter names target json).of type) ∧
    (type ≠ target → special ∈ (registry.namesAfter names target json).of type →
      special ∈ (registry.namesAfter names name json).of type)
  encoded : ∀ json names attributes, registry.Reachable names →
    ((registry.decode name (.ofJson json)).run names).1 = .ok (.object name attributes) →
    (∀ field ∈ Fields.names attributes,
      ¬registry.Parts (registry.namesAfter names name json) (registry.namesAfter names target json)
        name target field) →
    (∀ type ∈ [name, target], ∀ inside,
      (∃ entry ∈ attributes, Value.Occurs (.object type inside) entry.2) →
      ∀ field ∈ Fields.names inside,
        ¬registry.Parts (registry.namesAfter names name json)
          (registry.namesAfter names target json) type type field) →
    (Value.object name attributes).toJson (registry.keyOf (registry.namesAfter names name json)) =
      (Value.object target attributes).toJson
        (registry.keyOf (registry.namesAfter names target json))
  converted : ∀ json attributes,
    (∀ key, (Value.ofJson json).HasKey key → ¬Naming.Escaped key) →
    ((registry.decode name (.ofJson json)).run registry.names).1 = .ok (.object name attributes) →
    (Value.object name attributes).toJson
        (registry.keyOf (registry.namesAfter registry.names name json)) =
      (Value.object target attributes).toJson
        (registry.keyOf (registry.namesAfter registry.names target json))

section

variable {registry : Registry} (wellFormed : registry.WellFormed) {name target : String}
  {composite other : Composite} (present : Fields.get? registry.composites name = some composite)
  (also : Fields.get? registry.composites target = some other)
  (renames : composite.Renames other)

include wellFormed present also renames

theorem toJson_renamed (json : Json) (attributes : Fields Value) {names : NameTable}
    (sound : names.Sound)
    (top : ∀ field ∈ Fields.names attributes,
      ¬registry.Parts (registry.namesAfter names name json) (registry.namesAfter names target json)
        name target field)
    (inner : ∀ type ∈ [name, target], ∀ inside,
      (∃ entry ∈ attributes, Value.Occurs (.object type inside) entry.2) →
      ∀ field ∈ Fields.names inside,
        ¬registry.Parts (registry.namesAfter names name json)
          (registry.namesAfter names target json) type type field) :
    (Value.object name attributes).toJson (registry.keyOf (registry.namesAfter names name json)) =
      (Value.object target attributes).toJson
        (registry.keyOf (registry.namesAfter names target json)) := by
  have here : (registry.namesAfter names name json).Sound :=
    sound.grow ((registry.decode_growing name (.ofJson json)).grows names)
  have there : (registry.namesAfter names target json).Sound :=
    sound.grow ((registry.decode_growing target (.ofJson json)).grows names)
  have added := decode_renamed_names wellFormed present also renames json sound
  rw [Value.toJson, Value.toJson, Value.attributesToJson_congr name target attributes]
  · intro entry member type inside occurs field listed
    refine keyOf_same here there fun parts => ?_
    by_cases own : type ∈ [name, target]
    · exact inner type own inside ⟨entry, member, occurs⟩ field listed parts
    · -- The special names of other types are the same.
      simp only [List.mem_cons, List.not_mem_nil, or_false, not_or] at own
      exact parts.once ⟨(added type field).1 own.1, (added type field).2 own.2⟩
  · intro entry member
    exact keyOf_renamed here there present also renames.properties
      (top entry.1 (Fields.name_mem member))

omit wellFormed in
/-- At first both have the same special names. -/
theorem names_renamed (special : String) :
    special ∈ registry.names.of name ↔ special ∈ registry.names.of target := by
  unfold NameTable.of Registry.names
  rw [Fields.get?_mapValues, Fields.get?_mapValues, present, also]
  exact renames.special special

theorem behaves_of_renames (inherits : TransGen registry.ParentOf name target) :
    registry.Behaves name target where
  subtype := isSubtype_iff.mpr inherits.to_reflTransGen
  decoded := fun json first second here there =>
    decode_renamed wellFormed present also renames json (wellFormed.reachable_sound here)
      (wellFormed.reachable_sound there)
  special := fun json names reached =>
    decode_renamed_names wellFormed present also renames json (wellFormed.reachable_sound reached)
  encoded := fun json names attributes reached _ =>
    toJson_renamed wellFormed present also renames json attributes
      (wellFormed.reachable_sound reached)
  converted := by
    intro json attributes converted _
    have after := mem_namesAfter wellFormed wellFormed.names_sound converted
    refine toJson_renamed wellFormed present also renames json attributes wellFormed.names_sound
      (fun field _ parts => parts.once ?_) fun type _ inside _ field _ parts => parts.once ?_
    · rw [after name name, after target target]
      exact names_renamed present also renames field
    · rw [after name type, after target type]

end

end Registry

namespace Document

open Compile

/-- A name that refers to another one, by way of any others, stands for what that one is. If it is no
composite type, both are registered with the same type and caster. If it is one, the name is a
subtype that behaves as the other. -/
theorem references_behave {document : Document} {registry : Registry}
    (compiled : document.compile = .ok registry)
    {name target : String} (leads : TransGen document.RefersOn name target)
    (last : ∀ definition, (target, definition) ∈ document.definitions →
      definition.shape ≠ .ok .passthrough) :
    ∃ entry other, registry.entry name = .ok entry ∧ registry.entry target = .ok other ∧
      (¬(other.category = .custom ∨ other.category = .multiInheritance) →
        entry.type = other.type ∧ entry.caster = other.caster) ∧
      (other.category = .custom ∨ other.category = .multiInheritance →
        registry.Behaves name target) := by
  obtain ⟨workspace, made⟩ := compile_ok compiled
  have link : ∀ first second, document.RefersOn first second →
      registry.StandsFor first second := by
    rintro first second ⟨definition, listed, shape, referred⟩
    obtain ⟨entry, present, -, rfl, own⟩ := compile_listed compiled listed
    rw [shape] at own
    exact made.standsFor present (Except.ok.inj own).symm referred
  have stands : registry.StandsFor name target := by
    clear last
    induction leads with
    | single step => exact link _ _ step
    | tail _ step ih => exact ih.trans (link _ _ step)
  have final : ∀ other, Fields.get? registry.entries target = some other →
      ((∃ parent, other.type = .composite parent) ↔
        other.category = .custom ∨ other.category = .multiInheritance) := by
    intro other present
    rw [made.completed.entries] at present
    have sound := made.sound.entries target other present
    obtain ⟨held, known, -, sameCategory⟩ := sound.origin
    have named := made.sound.known target held known
    obtain ⟨past, lineage, -, own, -⟩ := sound.made.history
    refine own.composite_iff fun passthrough => ?_
    rw [← sameCategory, passthrough] at named
    cases named.needed with
    | inl listed => exact last _ listed named.shape
    | inr anonymous => cases anonymous
  cases stands with
  | synonym own theirs plain type caster =>
    refine ⟨_, _, Registry.found_ok.mpr own, Registry.found_ok.mpr theirs,
      fun _ => ⟨type, caster⟩, fun composite => ?_⟩
    obtain ⟨parent, typed⟩ := (final _ theirs).mpr composite
    exact absurd typed (plain parent)
  | heir own theirs _ typed present also renames inherits =>
    refine ⟨_, _, Registry.found_ok.mpr own, Registry.found_ok.mpr theirs, fun other => ?_,
      fun _ => Registry.behaves_of_renames made.wellFormed present also renames inherits⟩
    exact absurd ((final _ theirs).mp ⟨target, typed⟩) other

/-- Specimens have parts that are specimens, and anything else; probes are items, and items are
specimens. -/
def specimens : Document where
  definitions := [
    ("Probe", ⟨[("$ref", .string "#/$defs/Item")]⟩),
    ("Item", ⟨[("$ref", .string "#/$defs/Specimen")]⟩),
    ("Specimen", ⟨[
      ("type", .string "object"),
      ("properties", .object [("Part", .object [("$ref", .string "#/$defs/Specimen")])]),
      ("additionalProperties", .bool true)]⟩)]

theorem specimens_refer : TransGen specimens.RefersOn "Probe" "Specimen" := by
  have first : specimens.RefersOn "Probe" "Item" := ⟨_, .head _, rfl, by decide⟩
  have second : specimens.RefersOn "Item" "Specimen" := ⟨_, .tail _ (.head _), rfl, by decide⟩
  exact .tail (.single first) second

theorem references_behave_specimens :
    TransGen specimens.RefersOn "Probe" "Specimen" ∧
      ∃ registry, specimens.compile = .ok registry ∧ registry.Behaves "Probe" "Specimen" := by
  have objects : ∀ entry ∈ specimens.definitions, entry.1 = "Specimen" →
      entry.2.shape.toOption = some .custom := by decide +kernel
  have last : ∀ definition, ("Specimen", definition) ∈ specimens.definitions →
      definition.shape ≠ .ok .passthrough := by
    intro definition listed passthrough
    have object := objects _ listed rfl
    rw [passthrough] at object
    cases object
  have object : ∃ registry ∈ specimens.compile.toOption,
      ∃ entry ∈ (registry.entry "Specimen").toOption, entry.category = .custom := by decide +kernel
  obtain ⟨registry, made, entry, found, category⟩ := object
  have compiled := Outcomes.toOption_iff.mp made
  obtain ⟨-, other, -, theirs, -, behaves⟩ :=
    references_behave compiled specimens_refer last
  rw [Outcomes.toOption_iff.mp found] at theirs
  cases theirs
  exact ⟨specimens_refer, registry, compiled, behaves (.inl category)⟩

/-- What a document is decoded as at first by a name of a specimen, and how that is written. -/
def writeSpecimen (name : String) (json : Json) : Except Error (Value × Json) := do
  let registry ← specimens.compile
  let value ← ((registry.decode name (.ofJson json)).run registry.names).1
  return (value, ← value.toJson (registry.keyOf (registry.namesAfter registry.names name json)))

theorem writeSpecimen_ok {name : String} {json written : Json} {value : Value}
    (wrote : writeSpecimen name json = .ok (value, written)) :
    ∃ registry, specimens.compile = .ok registry ∧
      ((registry.decode name (.ofJson json)).run registry.names).1 = .ok value ∧
      value.toJson (registry.keyOf (registry.namesAfter registry.names name json)) =
        .ok written := by
  obtain ⟨registry, compiled, rest⟩ := Outcomes.bind_ok.mp wrote
  obtain ⟨value, decoded, rest⟩ := Outcomes.bind_ok.mp rest
  obtain ⟨written, encoded, last⟩ := Outcomes.bind_ok.mp rest
  cases last
  exact ⟨registry, compiled, decoded, encoded⟩

/-- A specimen and its part have the same attribute by different keys. -/
def nestedSpecimen : Json :=
  .object [("SampleMass", .integer 1), ("Part", .object [("sample_mass", .integer 2)])]

/-- Reading the part makes the key special for specimens, and so changes how the whole is written if
it was read as a specimen, but not if it was read as a probe. -/
theorem references_written_apart :
    TransGen specimens.RefersOn "Probe" "Specimen" ∧ ∃ registry probe specimen written other,
      specimens.compile = .ok registry ∧
      ((registry.decode "Probe" (.ofJson nestedSpecimen)).run registry.names).1 = .ok probe ∧
      ((registry.decode "Specimen" (.ofJson nestedSpecimen)).run registry.names).1 =
        .ok specimen ∧
      probe.toJson (registry.keyOf (registry.namesAfter registry.names "Probe" nestedSpecimen)) =
        .ok written ∧
      specimen.toJson
        (registry.keyOf (registry.namesAfter registry.names "Specimen" nestedSpecimen)) =
        .ok other ∧
      written ≠ other := by
  have first : (writeSpecimen "Probe" nestedSpecimen).toOption.bind (fun result =>
      result.2.object?.map Fields.names) = some ["Part", "SampleMass"] := by decide +kernel
  have second : (writeSpecimen "Specimen" nestedSpecimen).toOption.bind (fun result =>
      result.2.object?.map Fields.names) = some ["Part", "sample_mass"] := by decide +kernel
  obtain ⟨⟨probe, written⟩, wrote, keys⟩ := Option.bind_eq_some_iff.mp first
  obtain ⟨⟨specimen, other⟩, also, otherKeys⟩ := Option.bind_eq_some_iff.mp second
  obtain ⟨registry, compiled, decoded, encoded⟩ :=
    writeSpecimen_ok (Outcomes.toOption_iff.mp wrote)
  obtain ⟨same, compiledAgain, decodedAgain, encodedAgain⟩ :=
    writeSpecimen_ok (Outcomes.toOption_iff.mp also)
  rw [compiled] at compiledAgain
  cases compiledAgain
  refine ⟨specimens_refer, registry, probe, specimen, written, other, compiled, decoded,
    decodedAgain, encoded, encodedAgain, fun equal => ?_⟩
  rw [equal] at keys
  exact absurd (keys.symm.trans otherKeys) (by decide)

end Document

end TypedSchema
