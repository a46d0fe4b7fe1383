import TypedSchema.Proofs.Compile.Owning

/-!
The properties of object types against the definitions that the types were made for. Each property
is made of its own entry and of the schema of that entry, unless two schemas take one name or two
keys take one attribute; what decides is stated exactly.
-/

namespace TypedSchema

namespace Compile

variable {document : Document}

/-! ## What is to be bound -/

/-- The one property of a table with the key of an entry was made of that entry: it is required as
the definition says, and its type and caster are those of the schema of the entry, whose own types
are meant. An object in its place has the type that was made for it. -/
def BoundOnce (document : Document) (registry : Registry) (owner : String) (definition : Definition)
    (composite : Composite) (entry : String × Json) : Prop :=
  ∃ property, (Fields.values composite.properties).filter (·.external = entry.1) = [property] ∧
    (property.default = .required ↔ entry.1 ∈ definition.required) ∧
    BoundProperty True document registry owner (definition.required.contains entry.1) entry
      property ∧
    ∀ inner, Definition.ofJson entry.2 = .ok inner → inner.shape = .ok .custom →
      property.caster = .composite (propertyHint owner (Naming.snake entry.1)) ∧
        MadeFor registry (propertyHint owner (Naming.snake entry.1)) inner .custom

/-- Every schema that takes a name has the type of this name made for it, and in the type of an
object every entry of its properties is bound once. -/
structure Faithful (document : Document) (registry : Registry) : Prop where
  made : AllMade document registry
  bound : ∀ name definition, Named document name definition .custom →
    ∃ composite, Fields.get? registry.composites name = some composite ∧
      composite.lineage = .custom ∧
      ∀ entry ∈ definition.properties?.getD [],
        BoundOnce document registry name definition composite entry

/-- No two keys that an object declares are stored under the same attribute. -/
def AttributesApart (document : Document) : Prop :=
  ∀ name definition, Named document name definition .custom →
    ∀ first ∈ definition.properties?.getD [], ∀ second ∈ definition.properties?.getD [],
      Naming.snake first.1 = Naming.snake second.1 → first.1 = second.1

/-! ## Distinct names -/

/-- Entries stay distinct in the order in which they are bound. -/
theorem nodup_bindingOrder {definition : Definition} {β : Type} {label : String → β}
    (distinct : Fields.Distinct (definition.properties?.getD []))
    (apart : ∀ first ∈ definition.properties?.getD [], ∀ second ∈ definition.properties?.getD [],
      label first.1 = label second.1 → first.1 = second.1) :
    ((bindingOrder definition).map fun entry => label entry.1).Nodup := by
  have order : (bindingOrder definition).Perm (definition.properties?.getD []) := by
    simp only [bindingOrder, Definition.splitProperties, List.partition_eq_filter_filter]
    exact List.filter_append_perm _ _
  rw [(order.map _).nodup_iff]
  refine List.Nodup.map_on ?_ (List.Nodup.of_map _ distinct)
  intro first firstMember second secondMember same
  exact List.inj_on_of_nodup_map distinct firstMember secondMember
    (apart first firstMember second secondMember same)

/-! ## Bound as declared -/

section

variable {workspace : Workspace} {registry : Registry}
  (compiled : Compiled document workspace registry)

include compiled

theorem Compiled.extends : Extends workspace.registry registry := fun name entry present => by
  rw [compiled.completed.entries]
  exact present

/-- The table of a type that was made for an object is the one that was bound to it. -/
theorem Compiled.bound_of_made {name : String} {definition : Definition}
    (made : MadeFor registry name definition .custom) :
    ∃ composite, Fields.get? registry.composites name = some composite ∧
      composite.lineage = .custom ∧ BoundTo document registry name definition composite := by
  obtain ⟨entry, present, rfl, category⟩ := made
  rw [compiled.completed.entries] at present
  obtain ⟨held, known, same, sameCategory⟩ := (compiled.sound.entries name entry present).origin
  have grouped : name ∈ workspace.group .custom := by
    rw [← category, sameCategory]
    exact mem_group known
  obtain ⟨other, composite, otherKnown, table, custom, bound⟩ := compiled.bound name grouped
  rw [known] at otherKnown
  cases otherKnown
  obtain ⟨last, lastTable⟩ := Fields.mem_names_iff.mp
    (compiled.completed.names name (Fields.mem_names_iff.mpr ⟨composite, table⟩))
  -- Types that do not inherit are left as they were bound.
  obtain ⟨-, -, old, oldTable, -, -, kept⟩ := compiled.completed.composites name last lastTable
  rw [table] at oldTable
  cases oldTable
  rw [kept custom] at lastTable
  exact ⟨composite, lastTable, custom, same.symm ▸ bound.mono compiled.extends⟩

/-- An object in its place has the type of its name. -/
theorem Compiled.denotes_object {definition : Definition} {hint : String} {resolved : Resolved}
    (denotes : Denotes True (patternsOf document) registry definition hint resolved)
    (object : definition.shape = .ok .custom) :
    resolved.caster = .composite hint ∧ MadeFor registry hint definition .custom := by
  obtain ⟨entry, present, rfl, own⟩ := (denotes.of_shape object).of_anonymous rfl
  obtain ⟨same, category⟩ := own trivial
  refine ⟨?_, entry, present, same, category⟩
  rw [compiled.completed.entries] at present
  obtain ⟨earlier, later, lineage, -, -, made, -⟩ :=
    (compiled.sound.entries hint entry present).made.made
  exact congrArg Resolved.caster (made.declared (made.lineage_of_custom category)).1

end

theorem Compiled.boundOnce {document : Document.Keyed} {workspace : Workspace} {registry : Registry}
    (compiled : Compiled document.val workspace registry) (made : AllMade document.val registry)
    (attributes : AttributesApart document.val) {name : String} {definition : Definition}
    (named : Named document.val name definition .custom) {composite : Composite}
    (bound : BoundTo document.val registry name definition composite) {entry : String × Json}
    (declared : entry ∈ definition.properties?.getD []) :
    BoundOnce document.val registry name definition composite entry := by
  obtain ⟨properties, each, table⟩ := bound.properties
  have distinct := Definition.keyed_properties named.placed.keyed
  have names := Lists.map_of_related each fun _ _ own => BoundProperty.name own
  have externals := Lists.map_of_related each fun _ _ own => BoundProperty.external own
  have apart := nodup_bindingOrder distinct (attributes name definition named)
  have inOrder : Fields.values composite.properties = properties := by
    have nodup : Fields.Distinct (keyed properties) := by
      rw [← names] at apart
      simpa [Fields.Distinct, Fields.names, keyed, Function.comp_def] using apart
    rw [table, Fields.ofList_of_distinct nodup]
    simp [Fields.values, keyed, Function.comp_def]
  obtain ⟨property, member, own⟩ := Lists.result_of_source each (mem_bindingOrder.mpr declared)
  obtain ⟨inner, resolved, node, denotes, caster, type⟩ := own.typed
  have placed := named.placed.part named.shape (.property declared node)
  have meant := denotes.own made placed
  refine ⟨property, ?_, ?_, { own with typed := ⟨inner, resolved, node, meant, caster, type⟩ }, ?_⟩
  · have keys : (properties.map Property.external).Nodup := by
      rw [externals]
      exact @nodup_bindingOrder _ _ id distinct fun _ _ _ _ => id
    rw [inOrder, ← own.external]
    exact Lists.filter_label keys member
  · rw [own.default, ← List.contains_iff_mem]
    cases definition.required.contains entry.1 <;> simp
  · intro other read object
    rw [node] at read
    cases read
    rw [caster]
    exact compiled.denotes_object meant object

end Compile

namespace Document

open Compile

/-- Binding is faithful. In a document without repeated keys that compiles, every type is made for
the schema that takes its name, and every entry of the properties of an object is bound once, as the
definition says and by the type of its own schema, exactly if no two schemas take the same name and
no two keys of an object are stored under the same attribute. -/
theorem compile_faithful_iff (document : Document.Keyed) {registry : Registry}
    (compiled : document.val.compile = .ok registry) :
    Faithful document.val registry ↔ NamesApart document.val ∧ AttributesApart document.val := by
  obtain ⟨workspace, made⟩ := compile_ok compiled
  constructor
  · intro faithful
    constructor
    · intro name first second firstCategory secondCategory firstNamed secondNamed
      obtain ⟨entry, present, same, -⟩ := faithful.made _ _ _ firstNamed
      obtain ⟨other, otherPresent, otherSame, -⟩ := faithful.made _ _ _ secondNamed
      rw [present] at otherPresent
      cases otherPresent
      exact same.symm.trans otherSame
    · intro name definition named first firstMember second secondMember same
      obtain ⟨composite, table, -, once⟩ := faithful.bound name definition named
      obtain ⟨property, found, -, own, -⟩ := once first firstMember
      obtain ⟨other, otherFound, -, otherOwn, -⟩ := once second secondMember
      -- Both properties are in the table under the attribute, which has one place for it.
      have wellFormed := (made.wellFormed.composites name composite table).2
      have held := wellFormed.property_of_mem (List.mem_of_mem_filter
        (found ▸ List.mem_singleton_self property))
      have otherHeld := wellFormed.property_of_mem (List.mem_of_mem_filter
        (otherFound ▸ List.mem_singleton_self other))
      rw [otherOwn.name, ← same, ← own.name, held] at otherHeld
      cases otherHeld
      exact own.external.symm.trans otherOwn.external
  · intro ⟨names, attributes⟩
    have all := made.allMade names
    refine ⟨all, fun name definition named => ?_⟩
    obtain ⟨composite, table, custom, bound⟩ := made.bound_of_made (all _ _ _ named)
    exact ⟨composite, table, custom, fun entry declared =>
      made.boundOnce all attributes named bound declared⟩

/-- An address as it stands in a person. -/
def addressSchema : Definition :=
  ⟨[("type", .string "object"),
    ("properties", .object [("Street", .object [("type", .string "string")])])]⟩

def personSchema : Definition :=
  ⟨[("type", .string "object"), ("properties", .object [("Address", addressSchema.toJson)])]⟩

/-- Persons with an address, and a definition that happens to have the name made for it. -/
def households : Document where
  definitions := [("Person", personSchema), ("Person_address", ⟨[
    ("type", .string "object"),
    ("properties", .object [("Zip", .object [("type", .string "string")])]),
    ("required", .array [.string "Zip"])]⟩)]

theorem compile_faithful_iff_households :
    ∃ registry, households.compile = .ok registry ∧
      (Faithful households registry ↔ NamesApart households ∧ AttributesApart households) := by
  have compiles : households.compile.toOption.isSome = true := by decide +kernel
  cases compiled : households.compile with
  | error error =>
    rw [compiled] at compiles
    cases compiles
  | ok registry =>
    exact ⟨registry, rfl, compile_faithful_iff ⟨households, by decide⟩ compiled⟩

/-- The address of a person gets the type of the other definition. -/
theorem compile_confuses_addresses :
    ∃ registry entry, households.compile = .ok registry ∧
      Named households "Person" personSchema .custom ∧
      ("Address", addressSchema.toJson) ∈ personSchema.properties?.getD [] ∧
      Fields.get? registry.entries (propertyHint "Person" (Naming.snake "Address")) = some entry ∧
      entry.definition ≠ addressSchema ∧ ¬ Faithful households registry := by
  have required : (households.compile.toOption.bind fun registry =>
      (Fields.get? registry.entries "Person_address").map fun entry => entry.definition.required) =
        some ["Zip"] := by decide +kernel
  have converted : Naming.snake "Address" = "address" := by decide
  cases compiled : households.compile with
  | error error =>
    rw [compiled] at required
    cases required
  | ok registry =>
    rw [compiled] at required
    obtain ⟨entry, present, zip⟩ := Option.map_eq_some_iff.mp required
    have other : entry.definition ≠ addressSchema := by
      intro same
      rw [same] at zip
      cases zip
    have named : Named households "Person" personSchema .custom :=
      ⟨.listed List.mem_cons_self, by rfl, .inl List.mem_cons_self⟩
    have declared : ("Address", addressSchema.toJson) ∈ personSchema.properties?.getD [] :=
      List.mem_cons_self
    have held : Fields.get? registry.entries (propertyHint "Person" (Naming.snake "Address")) =
        some entry := by rw [converted]; exact present
    refine ⟨registry, entry, rfl, named, declared, held, other, fun faithful => ?_⟩
    have inside : Named households (propertyHint "Person" (Naming.snake "Address")) addressSchema
        .custom :=
      ⟨named.placed.part named.shape (.property declared rfl), by rfl, .inr rfl⟩
    obtain ⟨own, present, same, -⟩ := faithful.made _ _ _ inside
    rw [held] at present
    cases present
    exact other same

end Document

end TypedSchema
