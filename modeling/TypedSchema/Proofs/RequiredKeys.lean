import TypedSchema.Proofs.Decode.Refilling
import TypedSchema.Proofs.FaithfulBinding

/-!
Required keys. A key that an object type requires and declares is required of every type that takes
the declaration from it, and data in which no key has the attribute is refused by them all.
-/

namespace TypedSchema

/-! ## Requiring -/

/-- An object definition requires and declares a key, and every other key of its properties that has
the same attribute as well. -/
structure Definition.Demands (definition : Definition) (key : String) : Prop where
  required : key ∈ definition.required
  declared : key ∈ Fields.names (definition.properties?.getD [])
  twins : ∀ other ∈ Fields.names (definition.properties?.getD []),
    Naming.snake other = Naming.snake key → other ∈ definition.required

/-- The table of a type requires an attribute. -/
def Composite.Requires (composite : Composite) (internal : String) : Prop :=
  ∃ property, Fields.get? composite.properties internal = some property ∧
    property.default = .required

namespace Registry

/-- A type has an attribute in its table. -/
def Declares (registry : Registry) (name internal : String) : Prop :=
  ∃ composite, Fields.get? registry.composites name = some composite ∧
    internal ∈ Fields.names composite.properties

/-- The types that an attribute is required of: an object type that demands a key of this attribute,
a type that stands for such a type, and a type with such a parent if all later parents that declare
the attribute are such types as well. -/
inductive Enforces (registry : Registry) (internal : String) : String → Prop where
  | own {name key : String} {entry : Entry}
    (registered : Fields.get? registry.entries name = some entry)
    (object : entry.category = .custom) (demands : entry.definition.Demands key)
    (converted : Naming.snake key = internal) : Enforces registry internal name
  | passthrough {name parent : String} {composite : Composite}
    (present : Fields.get? registry.composites name = some composite)
    (lineage : composite.lineage = .passthrough parent)
    (above : Enforces registry internal parent) : Enforces registry internal name
  | combined {name parent : String} {composite : Composite} {earlier later : List String}
    (present : Fields.get? registry.composites name = some composite)
    (lineage : composite.lineage = .combined (earlier ++ parent :: later))
    (above : Enforces registry internal parent)
    (last : ∀ other ∈ later, registry.Declares other internal →
      Enforces registry internal other) : Enforces registry internal name

end Registry

/-! ## Tables -/

/-- The last of the parents that have an attribute decides. -/
theorem Composite.mergedProperties_requires {internal : String} {above : Composite}
    (requires : above.Requires internal) {earlier later : List Composite}
    (last : ∀ other ∈ later, internal ∈ Fields.names other.properties →
      Fields.Distinct other.properties ∧ other.Requires internal)
    (distinct : Fields.Distinct above.properties) :
    ∃ property, Fields.get? (mergedProperties (earlier ++ above :: later)) internal =
        some property ∧ property.default = .required := by
  obtain ⟨property, held, required⟩ := requires
  rw [mergedProperties_eq, List.flatMap_append, Fields.get?_ofList_append, List.flatMap_cons,
    Fields.get?_ofList_append, Fields.ofList_of_distinct distinct, held]
  cases decided : Fields.get? (Fields.ofList (later.flatMap Composite.properties)) internal with
  | none => exact ⟨property, rfl, required⟩
  | some other =>
    -- Whatever a later parent declares comes from a table that requires it.
    have listed := (Fields.mem_insertAll (Fields.mem_of_get? decided)).resolve_right
      List.not_mem_nil
    obtain ⟨source, member, declared⟩ := List.mem_flatMap.mp listed
    obtain ⟨sourceDistinct, own, ownHeld, ownRequired⟩ :=
      last source member (Fields.name_mem declared)
    rw [Fields.get?_of_mem sourceDistinct declared] at ownHeld
    cases ownHeld
    exact ⟨other, rfl, ownRequired⟩

namespace Compile

variable {document : Document} {workspace : Workspace} {registry : Registry}

theorem BoundTo.requires {owner key : String} {definition : Definition} {composite : Composite}
    (bound : BoundTo document registry owner definition composite)
    (demands : definition.Demands key) : composite.Requires (Naming.snake key) := by
  obtain ⟨properties, each, table⟩ := bound.properties
  obtain ⟨entry, declared, same⟩ := List.mem_map.mp demands.declared
  obtain ⟨own, member, ownBound⟩ := Lists.result_of_source each (mem_bindingOrder.mpr declared)
  have listed : Naming.snake key ∈ Fields.names (keyed properties) := by
    rw [← same, ← ownBound.name]
    exact Fields.name_mem (List.mem_map_of_mem member)
  rw [← Fields.mem_names_ofList, ← table] at listed
  obtain ⟨property, held⟩ := Fields.mem_names_iff.mp listed
  refine ⟨property, held, ?_⟩
  -- The property that stays in the table may be that of another key, which is required too.
  rw [table] at held
  have among := (Fields.mem_insertAll (Fields.mem_of_get? held)).resolve_right List.not_mem_nil
  obtain ⟨other, otherMember, equal⟩ := List.mem_map.mp among
  obtain ⟨converted, rfl⟩ := Prod.mk.inj equal
  obtain ⟨entry, entryMember, entryBound⟩ := Lists.source_of_result each otherMember
  have twin := demands.twins entry.1 (Fields.name_mem (mem_bindingOrder.mp entryMember))
    (entryBound.name.symm.trans converted)
  rw [entryBound.default, List.contains_iff_mem.mpr twin, if_pos rfl]

theorem Compiled.requires (compiled : Compiled document workspace registry) {internal name : String}
    (enforces : registry.Enforces internal name) :
    ∃ composite, Fields.get? registry.composites name = some composite ∧
      composite.Requires internal := by
  induction enforces with
  | @own name key entry registered object demands converted =>
    obtain ⟨composite, present, -, bound⟩ :=
      compiled.bound_of_made ⟨entry, registered, rfl, object⟩
    exact ⟨composite, present, converted ▸ bound.requires demands⟩
  | @passthrough name parent composite present lineage above ih =>
    refine ⟨composite, present, ?_⟩
    obtain ⟨top, topPresent, requires⟩ := ih
    cases compiled.inherits present with
    | passthrough own topFound _ properties =>
      rw [lineage] at own
      cases own
      rw [topPresent] at topFound
      cases topFound
      unfold Composite.Requires
      rw [properties]
      exact requires
    | _ own => exact nomatch lineage.symm.trans own
  | @combined name parent composite earlier later present lineage above last ih lastIh =>
    refine ⟨composite, present, ?_⟩
    have distinct : ∀ name composite, Fields.get? registry.composites name = some composite →
        Fields.Distinct composite.properties := fun name composite found =>
      (compiled.wellFormed.composites name composite found).2.distinct
    cases compiled.inherits present with
    | @combined _ _ aboves own found _ properties =>
      rw [lineage] at own
      cases own
      obtain ⟨before, rest, rfl, -, restFound⟩ := Lists.split_of_related found
      cases restFound with
      | @cons _ above _ _ aboveFound laterFound =>
        obtain ⟨_, abovePresent, requires⟩ := ih
        rw [aboveFound] at abovePresent
        cases abovePresent
        unfold Composite.Requires
        rw [properties]
        refine Composite.mergedProperties_requires requires (fun other member declared => ?_)
          (distinct parent above aboveFound)
        obtain ⟨name, listed, otherFound⟩ := Lists.source_of_result laterFound member
        obtain ⟨_, again, otherRequires⟩ := lastIh name listed ⟨other, otherFound, declared⟩
        rw [otherFound] at again
        cases again
        exact ⟨distinct name other otherFound, otherRequires⟩
    | _ own => exact nomatch lineage.symm.trans own

end Compile

/-! ## Refusing -/

namespace Decode

variable {registry : Registry} {cast : Cast}

theorem construct_refuses {composite : Composite} {arguments : Arguments} {path : DataPath}
    {fault : TypeFault} (refused : composite.signature.bind arguments = .error (.type path [] fault))
    (names : NameTable) :
    (construct registry cast composite arguments).run names =
      (.error (.type path [composite.name] fault), names) := by
  have ran := @runInitializer_refuses registry cast composite.initializer arguments _ refused
    registry.composites.length composite.name [] names
  unfold construct generations
  rw [run_bind, run_adapt, ran]
  rfl

theorem fromEntries_missing (cast : Cast) (wellFormed : registry.WellFormed) {name : String}
    {composite : Composite} (present : Fields.get? registry.composites name = some composite)
    {internal : String} (requires : composite.Requires internal) {entries : Fields Value}
    (absent : ∀ key ∈ Fields.names entries, Naming.snake key ≠ internal) {names : NameTable}
    (sound : names.Sound) :
    ∃ path fault, (fromEntries registry cast composite entries).run names =
      (.error (.type path [name] fault), (keywords composite entries names).2) := by
  obtain ⟨named, own⟩ := wellFormed.composites name composite present
  obtain ⟨property, held, required⟩ := requires
  have table := own.properties internal property held
  have member : property ∈ composite.signature.params := by
    rw [own.params]
    exact Fields.value_mem (Fields.mem_of_get? held)
  -- Declared or not, a key has the attribute that conversion gives.
  have unread : property.name ∉ Fields.names (Fields.ofList (composite.internalEntries entries)) := by
    rw [Fields.mem_names_ofList, table.name]
    intro listed
    obtain ⟨entry, entryMember, same⟩ := List.mem_map.mp listed
    obtain ⟨key, keyMember, attributed⟩ := Composite.mem_internalEntries entryMember
    rw [own.attributeOf_eq] at attributed
    exact absent key (Fields.name_mem keyMember) (attributed.trans same)
  obtain ⟨path, fault, refused⟩ := Signature.bind_missing own.distinctParams
    (Fields.distinct_ofList _) member required unread
  refine ⟨path, fault, ?_⟩
  unfold fromEntries
  rw [run_bind, run_lift, ← named]
  rw [← keywords_fst composite entries sound] at refused
  exact construct_refuses refused _

end Decode

namespace Document

/-- A key that is enforced cannot be left out: an object none of whose keys has its attribute is
refused with an error about types, whatever was decoded with the registry before. -/
theorem decode_requires {document : Document} {registry : Registry}
    (compiled : document.compile = .ok registry)
    {before : NameTable} (reached : registry.Reachable before) {name key : String}
    (enforces : registry.Enforces (Naming.snake key) name) {members : Fields Json}
    (absent : ∀ other ∈ Fields.names members, Naming.snake other ≠ Naming.snake key) :
    ∃ path fault, ((registry.decode name (.ofJson (.object members))).run before).1 =
      .error (.type path [name] fault) := by
  obtain ⟨workspace, made⟩ := Compile.compile_ok compiled
  have wellFormed := made.wellFormed
  obtain ⟨composite, present, requires⟩ := made.requires enforces
  have unread : ∀ other ∈ Fields.names (Value.ofJsonMembers members),
      Naming.snake other ≠ Naming.snake key := by
    rw [Value.names_ofJsonMembers]
    exact absent
  obtain ⟨path, fault, refused⟩ := Decode.fromEntries_missing
    (Decode.castFor registry (.composite composite.name) (.ofJson (.object members)))
    wellFormed present requires unread (wellFormed.reachable_sound reached)
  refine ⟨path, fault, ?_⟩
  unfold Registry.decode
  rw [wellFormed.compositeNamed, Registry.composite, Registry.found_ok.mpr present,
    Decode.run_bind, Decode.run_except]
  exact congrArg Prod.fst refused

/-- Visitors are persons and guests, and only persons must have a name. -/
def reception : Document where
  definitions := [
    ("Person", ⟨[
      ("type", .string "object"),
      ("properties", .object [("Name", .object [("type", .string "string")])]),
      ("required", .array [.string "Name"])]⟩),
    ("Guest", ⟨[
      ("type", .string "object"),
      ("properties", .object [("Host", .object [("type", .string "string")])])]⟩),
    ("Visitor", ⟨[
      ("allOf", .array [
        .object [("$ref", .string "#/$defs/Person")],
        .object [("$ref", .string "#/$defs/Guest")]])]⟩)]

/-- The types of the reception as far as the name of visitors is concerned. -/
def namesVisitors (registry : Registry) : Bool :=
  match registry.entry "Person", registry.composite "Visitor", registry.composite "Guest" with
  | .ok person, .ok visitor, .ok guest =>
    person.category = .custom && person.definition.required = ["Name"] &&
      Fields.names (person.definition.properties?.getD []) = ["Name"] &&
      (match visitor.lineage with
        | .combined parents => parents = ["Person", "Guest"]
        | _ => false) &&
      !(Fields.names guest.properties).contains "name"
  | _, _, _ => false

theorem enforces_of_namesVisitors {registry : Registry} (holds : namesVisitors registry = true) :
    registry.Enforces (Naming.snake "Name") "Visitor" := by
  unfold namesVisitors at holds
  split at holds
  · rename_i person visitor guest personFound visitorFound guestFound
    simp only [Bool.and_eq_true, decide_eq_true_eq, Bool.not_eq_true'] at holds
    obtain ⟨⟨⟨⟨object, required⟩, declared⟩, lineage⟩, undeclared⟩ := holds
    split at lineage
    · rename_i parents combined
      have both : parents = [] ++ "Person" :: ["Guest"] := by simpa using lineage
      have converted : Naming.snake "Name" = "name" := by decide
      have demands : person.definition.Demands "Name" := by
        constructor <;> simp [required, declared]
      refine .combined (Registry.found_ok.mp visitorFound) (both ▸ combined)
        (.own (Registry.found_ok.mp personFound) object demands rfl) ?_
      intro other later ⟨composite, found, declares⟩
      rw [List.mem_singleton.mp later, Registry.found_ok.mp guestFound] at found
      cases found
      rw [converted] at declares
      simp [declares] at undeclared
    · cases lineage
  · cases holds

theorem decode_requires_reception :
    ∃ registry path fault, reception.compile = .ok registry ∧ registry.Reachable registry.names ∧
      registry.Enforces (Naming.snake "Name") "Visitor" ∧
      (∀ other ∈ Fields.names [("Host", Json.string "Ada")],
        Naming.snake other ≠ Naming.snake "Name") ∧
      ((registry.decode "Visitor" (.ofJson (.object [("Host", .string "Ada")]))).run
        registry.names).1 = .error (.type path ["Visitor"] fault) := by
  have named : ∃ registry ∈ reception.compile.toOption, namesVisitors registry = true := by
    decide +kernel
  have absent : ∀ other ∈ Fields.names [("Host", Json.string "Ada")],
      Naming.snake other ≠ Naming.snake "Name" := by decide
  obtain ⟨registry, made, holds⟩ := named
  have compiled := Outcomes.toOption_iff.mp made
  have enforces := enforces_of_namesVisitors holds
  obtain ⟨path, fault, refused⟩ := decode_requires compiled .start enforces absent
  exact ⟨registry, path, fault, compiled, .start, enforces, absent, refused⟩

/-- An object that is decoded without a key that a type it inherits from lists as required. -/
structure Forgives (registry : Registry) (name owner key : String) (members : Fields Json) :
    Prop where
  inherits : registry.isSubtype name owner = true
  required : ∃ entry, registry.entry owner = .ok entry ∧ key ∈ entry.definition.required
  absent : key ∉ Fields.names members
  decoded : ((registry.decode name (.ofJson (.object members))).run registry.names).1.toBool = true

instance (registry : Registry) (name owner key : String) (members : Fields Json) :
    Decidable (Forgives registry name owner key members) :=
  decidable_of_iff
    (registry.isSubtype name owner = true ∧
      (∃ entry ∈ (registry.entry owner).toOption, key ∈ entry.definition.required) ∧
      key ∉ Fields.names members ∧
      ((registry.decode name (.ofJson (.object members))).run registry.names).1.toBool = true)
    (by
      simp only [Option.mem_def, Outcomes.toOption_iff]
      exact ⟨fun ⟨inherits, required, absent, decoded⟩ => ⟨inherits, required, absent, decoded⟩,
        fun forgives => ⟨forgives.inherits, forgives.required, forgives.absent, forgives.decoded⟩⟩)

/-- Notes require a title that they do not declare; visitors are persons with a name and guests that
may have one; members have two keys for their names. -/
def lenient : Document where
  definitions := [
    ("Note", ⟨[
      ("type", .string "object"),
      ("properties", .object [("Text", .object [("type", .string "string")])]),
      ("required", .array [.string "Title"])]⟩),
    ("Person", ⟨[
      ("type", .string "object"),
      ("properties", .object [("Name", .object [("type", .string "string")])]),
      ("required", .array [.string "Name"])]⟩),
    ("Guest", ⟨[
      ("type", .string "object"),
      ("properties", .object [("Name", .object [("type", .string "string")])])]⟩),
    ("Visitor", ⟨[
      ("allOf", .array [
        .object [("$ref", .string "#/$defs/Person")],
        .object [("$ref", .string "#/$defs/Guest")]])]⟩),
    ("Member", ⟨[
      ("type", .string "object"),
      ("properties", .object [
        ("Name", .object [("type", .string "string")]),
        ("name", .object [("type", .string "string")])]),
      ("required", .array [.string "Name"])]⟩)]

/-- Keys that are required but not declared, that a later parent makes optional, whose attribute
comes from another key, or that share it with an optional key can all be left out. -/
theorem decode_forgives :
    ∃ registry, lenient.compile = .ok registry ∧
      Forgives registry "Note" "Note" "Title" [] ∧
      Forgives registry "Visitor" "Person" "Name" [] ∧
      Forgives registry "Person" "Person" "Name" [("name", .string "Ada")] ∧
      Forgives registry "Member" "Member" "Name" [] := by
  have forgiven : ∃ registry ∈ lenient.compile.toOption,
      Forgives registry "Note" "Note" "Title" [] ∧
      Forgives registry "Visitor" "Person" "Name" [] ∧
      Forgives registry "Person" "Person" "Name" [("name", .string "Ada")] ∧
      Forgives registry "Member" "Member" "Name" [] := by decide +kernel
  obtain ⟨registry, compiled, forgives⟩ := forgiven
  exact ⟨registry, Outcomes.toOption_iff.mp compiled, forgives⟩

end Document

end TypedSchema
