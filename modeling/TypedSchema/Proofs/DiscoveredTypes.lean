import TypedSchema.Proofs.Compile.Discovering

/-!
Types of properties that are objects in their place. Discovery converts every key with no special
names, binding converts the keys of an object type one after the other, with the special names of
those before. Both get to the same name for the type of a property, so that binding finds the type
that was discovered and makes no second one.
-/

namespace TypedSchema

namespace Compile

variable {document : Document}

/-! ## Names -/

theorem specialNames_sound (earlier : List (String × Json)) {special : SpecialNames}
    (sound : Naming.Sound special) : Naming.Sound (specialNames earlier special) := by
  induction earlier generalizing special with
  | nil => exact sound
  | cons entry rest ih => exact ih (sound.pascalToSnake entry.1)

/-- What the keys before have made special changes the conversion of no key. -/
theorem pascalToSnake_specialNames (earlier : List (String × Json)) (key : String) :
    (Naming.pascalToSnake key (specialNames earlier [])).1 = Naming.snake key :=
  Naming.pascalToSnake_fst (specialNames_sound earlier .nil) key

/-- The property that a key is bound to once its schema is resolved. -/
def boundProperty (required : Bool) (key : String) (resolved : Resolved) : Property :=
  if required then ⟨Naming.snake key, key, resolved.caster, resolved.type, .required⟩
  else ⟨Naming.snake key, key, resolved.caster, resolved.type.orNull, .value .null⟩

/-- After any others, a property is resolved under the name that discovery has for it. -/
theorem bindProperties_after (solve : Solver) (owner : String) (required : Bool)
    (earlier : List (String × Json)) (key : String) (schema : Json)
    (rest : List (String × Json)) :
    bindProperties solve owner required ((key, schema) :: rest) (specialNames earlier []) = do
      let resolved ← resolveInline solve (stubName owner key) schema
      let (properties, special) ←
        bindProperties solve owner required rest (specialNames (earlier ++ [(key, schema)]) [])
      return (boundProperty required key resolved :: properties, special) := by
  have later : specialNames (earlier ++ [(key, schema)]) [] =
      (Naming.pascalToSnake key (specialNames earlier [])).2 := List.foldl_append ..
  rw [bindProperties, later]
  simp only [pascalToSnake_specialNames]
  rfl

/-! ## Passes -/

/-- The solver of the goals of a document. -/
def solver (document : Document) : Solver :=
  solve (patternsOf document) (goalNesting document) []

theorem solver_layers (document : Document) :
    ∃ layers, solver document = solve (patternsOf document) (layers + 2) [] := by
  have enough := goalNesting_ge document
  exact ⟨goalNesting document - 2, by rw [solver, Nat.sub_add_cancel (by omega)]⟩

/-- The workspaces of a compilation up to binding: one in which the definitions of the document are
registered, and one in which the types of properties are discovered as well. -/
structure Passes (document : Document) (listed discovered : Workspace) : Prop where
  listing : ∃ known, classify document = .ok known ∧
    (registerAll (solver document)).run { known } = .ok ((), listed)
  discovering : (visitCustom (discover (solver document)) (nesting document) 0).run listed =
    .ok ((), discovered)

theorem Passes.discovers {listed discovered : Workspace}
    (passes : Passes document listed discovered) :
    Discovers document listed (discovered.group .custom) discovered := by
  obtain ⟨known, classified, registering⟩ := passes.listing
  obtain ⟨start, -⟩ := classify_ok classified
  obtain ⟨registered, -⟩ := registerAll_registered start registering
  obtain ⟨layers, layered⟩ := solver_layers document
  have discovering := passes.discovering
  rw [layered] at discovering
  exact discoverAll_discovers registered discovering

/-- Before anything is bound, every table is empty. -/
theorem Passes.unbound {listed discovered : Workspace}
    (passes : Passes document listed discovered) : Binding document [] discovered := by
  obtain ⟨known, classified, registering⟩ := passes.listing
  obtain ⟨start, -⟩ := classify_ok classified
  have spec := solve_sound document (goalNesting document) []
  obtain ⟨advances, registered⟩ := registerAll_ok spec start registering
  have discovering := discoverAll_ok spec advances.sound passes.discovering
  exact .start rfl (advances.trans discovering) fun name member =>
    discovering.entries.names (registered name member)

/-- The type of a property that is an object in its place. It is registered when types have been
discovered, and from then on the property is resolved to it without any change, whichever keys have
been bound before. If its name was not known before discovery, it is an object type made for a
property of that name. -/
structure Agreed (document : Document) (listed discovered : Workspace) (owner key : String)
    (schema : Json) (entry : Entry) : Prop where
  registered : Fields.get? discovered.registry.entries (stubName owner key) = some entry
  resolved : ∀ workspace, discovered.known <+: workspace.known →
    Extends discovered.registry workspace.registry → ∀ earlier,
      (resolveInline (solver document)
        (propertyHint owner (Naming.pascalToSnake key (specialNames earlier [])).1) schema).run
        workspace = .ok (⟨entry.type, entry.caster⟩, workspace)
  made : stubName owner key ∉ Fields.names listed.known →
    entry.type = .composite (stubName owner key) ∧
      entry.caster = .composite (stubName owner key) ∧
      ForProperty discovered (stubName owner key) ⟨entry.definition, entry.category⟩

theorem Discovers.agreed {listed discovered : Workspace}
    (discovers : Discovers document listed (discovered.group .custom) discovered) {owner : String}
    {outer : Classified} (known : Fields.get? discovered.known owner = some outer)
    (category : outer.category = .custom) {key : String} {schema : Json}
    (declared : (key, schema) ∈ outer.definition.properties?.getD []) {definition : Definition}
    (object : objectType? schema = some definition) :
    ∃ entry, Agreed document listed discovered owner key schema entry := by
  obtain ⟨found, held, stubs⟩ := discovers.stubs owner (category ▸ mem_group known)
  rw [known] at held
  cases held
  have stub := stubs (key, schema) declared (by rw [object]; nofun)
  obtain ⟨entry, present⟩ := Fields.mem_names_iff.mp (discovers.registered.all _ stub)
  refine ⟨entry, present, fun workspace grown extended earlier => ?_, fun new => ?_⟩
  · obtain ⟨layers, layered⟩ := solver_layers document
    -- Nothing is adopted for the name, which is registered already.
    have still : stubName owner key ∈ Fields.names workspace.known :=
      (grown.map Prod.fst).subset stub
    rw [pascalToSnake_specialNames, layered, resolveInline_node (objectType?_eq_some object).1,
      solve, resolveShape_object object]
    exact resolveAnonymous_registered still (extended _ _ present)
  · have sound := discovers.registered.sound.entries _ _ present
    obtain ⟨origin, own, sameDefinition, sameCategory⟩ := sound.origin
    have made := (discovers.made _ origin own).resolve_left fun old =>
      new (Fields.mem_names_iff.mpr ⟨origin, old⟩)
    have custom : entry.category = .custom := sameCategory.trans made.1
    obtain ⟨earlier, later, lineage, -, -, typed, -⟩ := sound.made.made
    obtain ⟨same, -⟩ := typed.declared (typed.lineage_of_custom custom)
    obtain ⟨type, caster⟩ := Resolved.mk.inj same
    refine ⟨type, caster, ?_⟩
    rw [sameDefinition, sameCategory]
    exact made

/-- An object in its place stands for what is registered under its name. -/
theorem Denotes.of_object {ownNodes : Prop} {patterns : Patterns} {registry : Registry}
    {definition : Definition} {hint : String} {resolved : Resolved}
    (denotes : Denotes ownNodes patterns registry definition hint resolved)
    (object : definition.shape = .ok .custom) :
    ∃ entry, Fields.get? registry.entries hint = some entry ∧
      resolved = ⟨entry.type, entry.caster⟩ := by
  obtain ⟨entry, present, same, -⟩ := (denotes.of_shape object).of_anonymous rfl
  exact ⟨entry, present, same⟩

/-- A property of an object type that is bound, and of which type it is if it is an object in its
place. -/
structure BoundAs (registry : Registry) (owner : String) (required : Bool) (entry : String × Json)
    (property : Property) : Prop where
  external : property.external = entry.1
  name : property.name = Naming.snake entry.1
  object : objectType? entry.2 ≠ none →
    ∃ found, Fields.get? registry.entries (stubName owner entry.1) = some found ∧
      property = boundProperty required entry.1 ⟨found.type, found.caster⟩

theorem BoundProperty.boundAs {registry : Registry} {owner : String} {required : Bool}
    {entry : String × Json} {property : Property}
    (bound : BoundProperty False document registry owner required entry property) :
    BoundAs registry owner required entry property := by
  refine ⟨bound.external, bound.name, fun object => ?_⟩
  obtain ⟨definition, resolved, node, denotes, caster, type⟩ := bound.typed
  obtain ⟨inner, found⟩ := Option.ne_none_iff_exists'.mp object
  obtain ⟨same, shape⟩ := objectType?_eq_some found
  rw [node] at same
  cases same
  obtain ⟨held, present, rfl⟩ := denotes.of_object shape
  refine ⟨held, present, ?_⟩
  obtain ⟨name, external, default⟩ := And.intro bound.name (And.intro bound.external bound.default)
  cases property
  subst name external caster type default
  cases required <;> rfl

end Compile

namespace Document

open Compile

/-- Whatever keys have been bound before, binding calls the type of a property what discovery calls
it. Wherever all that is known is registered, resolving a property that is an object in its place is
discovering it: at most one type is made, and for the name of discovery. What discovery has found
binding only looks up, and every object type that is bound has the types under those names. -/
theorem binding_finds_discovered (document : Document) :
    (∀ owner key earlier,
      propertyHint owner (Naming.pascalToSnake key (specialNames earlier [])).1 =
        propertyHint owner (Naming.pascalToSnake key []).1) ∧
    (∀ solve owner required earlier key schema rest,
      bindProperties solve owner required ((key, schema) :: rest) (specialNames earlier []) = do
        let resolved ← resolveInline solve (stubName owner key) schema
        let (properties, special) ←
          bindProperties solve owner required rest (specialNames (earlier ++ [(key, schema)]) [])
        return (boundProperty required key resolved :: properties, special)) ∧
    (∀ workspace, Registered document workspace →
      ∀ owner key schema definition, objectType? schema = some definition →
        (discoverProperty (solver document) owner key schema).run workspace =
          .ok ((), workspace.withObject (stubName owner key) definition) ∧
        ∃ entry, Fields.get? (workspace.withObject (stubName owner key) definition).registry.entries
            (stubName owner key) = some entry ∧
          (resolveInline (solver document) (stubName owner key) schema).run workspace =
            .ok (⟨entry.type, entry.caster⟩,
              workspace.withObject (stubName owner key) definition)) ∧
    (∀ listed discovered, Passes document listed discovered →
        (∀ owner outer, Fields.get? discovered.known owner = some outer →
          outer.category = .custom →
          ∀ key schema, (key, schema) ∈ outer.definition.properties?.getD [] →
            objectType? schema ≠ none →
            ∃ entry, Agreed document listed discovered owner key schema entry) ∧
        ∀ bound, (visitCustom (bind (solver document)) (nesting document) 0).run discovered =
            .ok ((), bound) →
          discovered.known <+: bound.known ∧ Extends discovered.registry bound.registry ∧
          Registered document bound ∧
          ∀ owner outer, Fields.get? bound.known owner = some outer → outer.category = .custom →
            ∃ composite properties, Fields.get? bound.registry.composites owner = some composite ∧
              composite.properties = Fields.ofList (keyed properties) ∧
              List.Forall₂ (fun entry => BoundAs bound.registry owner
                (outer.definition.required.contains entry.1) entry)
                (bindingOrder outer.definition) properties) := by
  refine ⟨?_, bindProperties_after, ?_, ?_⟩
  · intro owner key earlier
    rw [pascalToSnake_specialNames, Naming.snake]
  · intro workspace registered owner key schema definition object
    obtain ⟨layers, layered⟩ := solver_layers document
    rw [layered]
    exact ⟨discoverProperty_object object registered, resolveInline_object object registered⟩
  · intro listed discovered passes
    have discovers := passes.discovers
    refine ⟨fun owner outer known category key schema declared object => ?_, fun bound ran => ?_⟩
    · obtain ⟨definition, found⟩ := Option.ne_none_iff_exists'.mp object
      exact discovers.agreed known category declared found
    · have spec := solve_sound document (goalNesting document) []
      obtain ⟨binding, extended, grown⟩ := bindAll_ok spec passes.unbound ran
      refine ⟨grown, extended, ⟨binding.sound, binding.registered⟩,
        fun owner outer known category => ?_⟩
      obtain ⟨held, composite, same, table, -, made⟩ :=
        binding.bound owner (category ▸ mem_group known)
      rw [known] at same
      cases same
      obtain ⟨properties, each, declared⟩ := made.properties
      exact ⟨composite, properties, table, declared, each.imp fun _ _ => BoundProperty.boundAs⟩

/-- Residents have a home, which is an object in its place, and a key before it that conversion
makes special. -/
def residents : Document where
  definitions := [
    ("Person", ⟨[
      ("type", .string "object"),
      ("required", .array [.string "first_name"]),
      ("properties", .object [
        ("Home", .object [
          ("type", .string "object"),
          ("properties", .object [("Street", .object [("type", .string "string")])])]),
        ("first_name", .object [("type", .string "string")])])]⟩)]

/-- The workspaces after the passes of a compilation. -/
def passesOf (document : Document) : Except Error (Workspace × Workspace × Workspace) := do
  let known ← classify document
  let ((), listed) ← (registerAll (solver document)).run { known }
  let ((), discovered) ← (visitCustom (discover (solver document)) (nesting document) 0).run listed
  let ((), bound) ← (visitCustom (bind (solver document)) (nesting document) 0).run discovered
  return (listed, discovered, bound)

theorem passesOf_ok {document : Document} {listed discovered bound : Workspace}
    (ran : passesOf document = .ok (listed, discovered, bound)) :
    Passes document listed discovered ∧
      (visitCustom (bind (solver document)) (nesting document) 0).run discovered =
        .ok ((), bound) := by
  simp only [passesOf, Outcomes.bind_ok] at ran
  obtain ⟨known, classified, ⟨_, listed⟩, listing, ⟨_, discovered⟩, discovering, ⟨_, bound⟩,
    binding, last⟩ := ran
  cases last
  exact ⟨⟨⟨known, classified, listing⟩, discovering⟩, binding⟩

theorem binding_finds_discovered_residents :
    ∃ listed discovered bound schema entry, Passes residents listed discovered ∧
      (visitCustom (bind (solver residents)) (nesting residents) 0).run discovered =
        .ok ((), bound) ∧
      Agreed residents listed discovered "Person" "Home" schema entry ∧
      entry.type = .composite "Person_home" ∧
      Fields.get? bound.registry.entries "Person_home" = some entry := by
  have ran : ∃ passes ∈ (passesOf residents).toOption,
      ∃ outer ∈ Fields.get? passes.2.1.known "Person",
      ∃ schema ∈ Fields.get? (outer.definition.properties?.getD []) "Home",
        outer.category = .custom ∧ (objectType? schema).isSome ∧
          "Person_home" ∉ Fields.names passes.1.known := by decide +kernel
  obtain ⟨⟨listed, discovered, bound⟩, made, outer, known, schema, declared, category, object,
    new⟩ := ran
  obtain ⟨passes, binding⟩ := passesOf_ok (Outcomes.toOption_iff.mp made)
  obtain ⟨-, -, -, agree⟩ := binding_finds_discovered residents
  obtain ⟨found, bind⟩ := agree listed discovered passes
  obtain ⟨entry, agreed⟩ := found "Person" outer known category "Home" schema
    (Fields.mem_of_get? declared) (Option.isSome_iff_ne_none.mp object)
  have stub : stubName "Person" "Home" = "Person_home" := by decide +kernel
  refine ⟨listed, discovered, bound, schema, entry, passes, binding, agreed, ?_, ?_⟩
  · rw [← stub] at new
    exact (agreed.made new).1.trans (congrArg _ stub)
  · exact (bind bound binding).2.1 _ _ (stub ▸ agreed.registered)

end Document

end TypedSchema
