import TypedSchema.Proofs.Compile.Rounds

/-!
Discovering the types of properties that are objects in their place. Once all that is known is
registered, resolving such a property registers one object type under the name for it, if nothing is
known under that name, and does nothing else.
-/

namespace TypedSchema

theorem Fields.get?_of_prefix {α : Type} {fields more : Fields α} (grown : fields <+: more)
    {name : String} {value : α} (found : get? fields name = some value) :
    get? more name = some value := by
  obtain ⟨rest, rfl⟩ := grown
  rw [get?_append, found, Option.some_or]

namespace Compile

variable {document : Document} {patterns : Patterns} {layers : Nat} {workspace : Workspace}
  {name : String} {definition : Definition}

/-- The name of the type of a property in its place. -/
def stubName (owner key : String) : String :=
  propertyHint owner (Naming.snake key)

/-- The workspace with an object type registered under a name, unless the name is known. -/
def Workspace.withObject (workspace : Workspace) (name : String) (definition : Definition) :
    Workspace :=
  if Fields.has workspace.known name then workspace
  else
    (workspace.adopt name ⟨definition, .custom⟩).enterComposite name ⟨definition, .custom⟩ .custom

theorem Workspace.withObject_of_known (known : name ∈ Fields.names workspace.known) :
    workspace.withObject name definition = workspace :=
  if_pos (Fields.has_iff.mpr known)

theorem Workspace.withObject_known :
    (workspace.withObject name definition).known =
      (workspace.adopt name ⟨definition, .custom⟩).known := by
  unfold Workspace.withObject
  split
  · rename_i has
    rw [Workspace.adopt, if_pos has]
  · rfl

theorem Workspace.get?_adopt {added held : Classified} {other : String}
    (found : Fields.get? (workspace.adopt name added).known other = some held) :
    Fields.get? workspace.known other = some held ∨ (other = name ∧ held = added) := by
  unfold Workspace.adopt at found
  split at found
  · exact .inl found
  · have inserted : Fields.get? (Fields.insert workspace.known name added) other = some held :=
      found
    rw [Fields.get?_insert] at inserted
    split at inserted
    · rename_i same
      exact .inr ⟨same, (Option.some.inj inserted).symm⟩
    · exact .inl inserted

/-! ## Names -/

/-- What is registered is found, and nothing changes. -/
theorem solve_registered {resolving : List String} {entry : Entry}
    (present : Fields.get? workspace.registry.entries name = some entry) :
    (solve patterns (layers + 1) resolving (.named name)).run workspace =
      .ok (⟨entry.type, entry.caster⟩, workspace) := by
  have contains : workspace.registry.contains name = true :=
    Fields.has_iff.mpr (Fields.mem_names_iff.mpr ⟨entry, present⟩)
  simp only [solve, resolveNamed]
  refine run_bind_ok.mpr ⟨_, _, run_get_ok.mpr ⟨rfl, rfl⟩, ?_⟩
  rw [contains, if_neg (by simp)]
  refine run_bind_ok.mpr ⟨_, _, run_get_ok.mpr ⟨rfl, rfl⟩, ?_⟩
  exact run_bind_ok.mpr ⟨entry, _, run_lift_ok.mpr ⟨Registry.found_ok.mpr present, rfl⟩,
    run_pure_ok.mpr ⟨rfl, rfl⟩⟩

/-- An object type that is known, but not registered yet, is registered by itself. -/
theorem solve_object (fresh : name ∉ Fields.names workspace.registry.entries)
    (known : Fields.get? workspace.known name = some ⟨definition, .custom⟩) :
    (solve patterns (layers + 1) [] (.named name)).run workspace =
      .ok (⟨.composite name, .composite name⟩,
        workspace.enterComposite name ⟨definition, .custom⟩ .custom) := by
  have absent : workspace.registry.contains name = false := by
    rw [← Bool.not_eq_true]
    exact fun contains => fresh (Fields.has_iff.mp contains)
  have entered : Fields.get?
      (workspace.enterComposite name ⟨definition, .custom⟩ .custom).registry.entries name =
        some ⟨name, .composite name, .composite name, definition, .custom⟩ :=
    (Fields.get?_insert ..).trans (if_pos rfl)
  simp only [solve, resolveNamed]
  refine run_bind_ok.mpr ⟨_, _, run_get_ok.mpr ⟨rfl, rfl⟩, ?_⟩
  rw [absent]
  refine run_bind_ok.mpr ⟨_, _, run_get_ok.mpr ⟨rfl, rfl⟩, ?_⟩
  refine run_bind_ok.mpr ⟨_, _, run_lift_ok.mpr ⟨Registry.found_ok.mpr known, rfl⟩, ?_⟩
  refine run_bind_ok.mpr ⟨(), _, run_modify_ok.mpr rfl, ?_⟩
  refine run_bind_ok.mpr ⟨_, _, run_get_ok.mpr ⟨rfl, rfl⟩, ?_⟩
  exact run_bind_ok.mpr ⟨_, _, run_lift_ok.mpr ⟨Registry.found_ok.mpr entered, rfl⟩,
    run_pure_ok.mpr ⟨rfl, rfl⟩⟩

/-- A schema whose name is registered already is not adopted. -/
theorem resolveAnonymous_registered {added : Classified} {entry : Entry}
    (known : name ∈ Fields.names workspace.known)
    (present : Fields.get? workspace.registry.entries name = some entry) :
    (resolveAnonymous (solve patterns (layers + 1) []) name added).run workspace =
      .ok (⟨entry.type, entry.caster⟩, workspace) := by
  have same : workspace.adopt name added = workspace := if_pos (Fields.has_iff.mpr known)
  refine run_bind_ok.mpr ⟨(), _, run_modify_ok.mpr rfl, ?_⟩
  rw [same]
  exact solve_registered present

/-- Resolving an object type in its place registers it, unless its name is known. -/
theorem resolveAnonymous_object (registered : Registered document workspace) :
    ∃ entry, Fields.get? (workspace.withObject name definition).registry.entries name =
        some entry ∧
      (resolveAnonymous (solve patterns (layers + 1) []) name ⟨definition, .custom⟩).run
        workspace = .ok (⟨entry.type, entry.caster⟩, workspace.withObject name definition) := by
  by_cases known : name ∈ Fields.names workspace.known
  · obtain ⟨entry, present⟩ := Fields.mem_names_iff.mp (registered.all name known)
    rw [Workspace.withObject_of_known known]
    exact ⟨entry, present, resolveAnonymous_registered known present⟩
  · have absent : ¬Fields.has workspace.known name = true := fun has =>
      known (Fields.has_iff.mp has)
    -- What is registered is known, so the name is free.
    have fresh : name ∉ Fields.names workspace.registry.entries := by
      intro held
      obtain ⟨entry, present⟩ := Fields.mem_names_iff.mp held
      obtain ⟨origin, found, -⟩ := (registered.sound.entries name entry present).origin
      exact known (Fields.mem_names_iff.mpr ⟨origin, found⟩)
    have adopted : workspace.adopt name ⟨definition, .custom⟩ =
        { workspace with known := Fields.insert workspace.known name ⟨definition, .custom⟩ } :=
      if_neg absent
    have found : Fields.get? (workspace.adopt name ⟨definition, .custom⟩).known name =
        some ⟨definition, .custom⟩ := by
      rw [adopted]
      exact (Fields.get?_insert ..).trans (if_pos rfl)
    rw [Workspace.withObject, if_neg absent]
    refine ⟨_, (Fields.get?_insert ..).trans (if_pos rfl),
      run_bind_ok.mpr ⟨(), _, run_modify_ok.mpr rfl, ?_⟩⟩
    exact solve_object (by rw [adopted]; exact fresh) found

/-! ## Properties -/

section

variable {owner key : String} {schema : Json} (object : objectType? schema = some definition)

include object

omit object in
theorem resolveInline_node {solve : Solver} {hint : String}
    (node : Definition.ofJson schema = .ok definition) :
    resolveInline solve hint schema = solve (.inline definition hint) := by
  rw [resolveInline, definitionAt, node]
  rfl

theorem resolveShape_object {solve : Solver} {hint : String} :
    resolveShape patterns solve definition hint =
      resolveAnonymous solve hint ⟨definition, .custom⟩ := by
  obtain ⟨-, shape⟩ := objectType?_eq_some object
  rw [resolveShape, Definition.constrained_of_shape shape, shape]
  rfl

/-- Wherever a property is an object in its place, resolving it is registering its type. -/
theorem resolveInline_object (registered : Registered document workspace) :
    ∃ entry, Fields.get? (workspace.withObject name definition).registry.entries name =
        some entry ∧
      (resolveInline (solve patterns (layers + 2) []) name schema).run workspace =
        .ok (⟨entry.type, entry.caster⟩, workspace.withObject name definition) := by
  rw [resolveInline_node (objectType?_eq_some object).1, solve, resolveShape_object object]
  exact resolveAnonymous_object registered

/-- Discovering a property does the same under the name that is made for it. -/
theorem discoverProperty_object (registered : Registered document workspace) :
    (discoverProperty (solve patterns (layers + 1) []) owner key schema).run workspace =
      .ok ((), workspace.withObject (stubName owner key) definition) := by
  have named : propertyHint owner (Naming.pascalToSnake key []).1 = stubName owner key := rfl
  simp only [discoverProperty, object, named]
  refine run_bind_ok.mpr ⟨_, _, run_get_ok.mpr ⟨rfl, rfl⟩, ?_⟩
  by_cases known : Fields.has workspace.known (stubName owner key) = true
  · rw [Workspace.withObject, if_pos known, known]
    exact run_pure_ok.mpr ⟨rfl, rfl⟩
  · rw [if_pos (by simpa using known)]
    obtain ⟨entry, -, ran⟩ := resolveAnonymous_object registered
    exact run_discard_ok.mpr ⟨_, ran⟩

end

/-! ## All properties -/

/-- What is known under a name was made known for a property of an object type. -/
def ForProperty (workspace : Workspace) (name : String) (held : Classified) : Prop :=
  held.category = .custom ∧ ∃ owner outer key schema,
    Fields.get? workspace.known owner = some outer ∧ outer.category = .custom ∧
    (key, schema) ∈ outer.definition.properties?.getD [] ∧
    objectType? schema = some held.definition ∧ name = stubName owner key

theorem ForProperty.mono {before after : Workspace} (grown : before.known <+: after.known)
    {held : Classified} (made : ForProperty before name held) : ForProperty after name held := by
  obtain ⟨custom, owner, outer, key, schema, known, rest⟩ := made
  exact ⟨custom, owner, outer, key, schema, Fields.get?_of_prefix grown known, rest⟩

section

variable {before after : Workspace} {owner : String} {outer : Classified}
  (registered : Registered document before) (known : Fields.get? before.known owner = some outer)
  (category : outer.category = .custom)

include registered known category

theorem discoverProperty_step {entry : String × Json}
    (declared : entry ∈ outer.definition.properties?.getD []) {result : Unit}
    (ran : (discoverProperty (solve (patternsOf document) (layers + 1) []) owner entry.1
      entry.2).run before = .ok (result, after)) :
    Registered document after ∧ before.known <+: after.known ∧
      (objectType? entry.2 ≠ none → stubName owner entry.1 ∈ Fields.names after.known) ∧
      ∀ name held, Fields.get? after.known name = some held →
        Fields.get? before.known name = some held ∨ ForProperty before name held := by
  have named := registered.sound.known owner outer known
  rw [category] at named
  have advances := discoverProperty_ok (solve_sound document (layers + 1) []) registered.sound
    named.placed named.shape declared ran
  have all : Registered document after := ⟨advances.sound, fun name held =>
    (advances.adopted name held).elim (advances.entries.names <| registered.all name ·) id⟩
  cases object : objectType? entry.2 with
  | none =>
    simp only [discoverProperty, object] at ran
    obtain ⟨-, rfl⟩ := run_pure_ok.mp ran
    exact ⟨all, advances.known, fun impossible => absurd rfl impossible, fun _ _ => .inl⟩
  | some definition =>
    rw [discoverProperty_object object registered] at ran
    cases ran
    refine ⟨all, advances.known, fun _ => ?_, fun name held found => ?_⟩
    · rw [Workspace.withObject_known]
      exact mem_names_adopt.mpr (.inl rfl)
    · rw [Workspace.withObject_known] at found
      refine (Workspace.get?_adopt found).imp_right fun ⟨same, added⟩ => ?_
      subst added
      exact ⟨rfl, owner, outer, _, _, known, category, declared, object, same⟩

theorem discoverProperties_ok {entries : List (String × Json)}
    (declared : ∀ entry ∈ entries, entry ∈ outer.definition.properties?.getD [])
    {results : List Unit}
    (runs : Runs (fun (property, schema) =>
      discoverProperty (solve (patternsOf document) (layers + 1) []) owner property schema)
      entries before results after) :
    Registered document after ∧ before.known <+: after.known ∧
      (∀ entry ∈ entries, objectType? entry.2 ≠ none →
        stubName owner entry.1 ∈ Fields.names after.known) ∧
      ∀ name held, Fields.get? after.known name = some held →
        Fields.get? before.known name = some held ∨ ForProperty after name held := by
  induction runs with
  | nil => exact ⟨registered, List.prefix_refl _, nofun, fun _ _ => .inl⟩
  | cons first later ih =>
    obtain ⟨next, grown, own, made⟩ := discoverProperty_step registered known category
      (declared _ List.mem_cons_self) first
    obtain ⟨last, more, others, rest⟩ := ih next (Fields.get?_of_prefix grown known)
      fun entry member => declared entry (List.mem_cons_of_mem _ member)
    refine ⟨last, grown.trans more, fun entry member object => ?_, fun name held found => ?_⟩
    · cases List.mem_cons.mp member with
      | inl same =>
        subst same
        exact (more.map Prod.fst).subset (own object)
      | inr other => exact others entry other object
    · rcases rest name held found with old | new
      · exact (made name held old).imp_right (ForProperty.mono (grown.trans more))
      · exact .inr new

end

/-- The object types that have been visited: the types of all their properties are known. What is
known besides what was known before is the type of a property. -/
structure Discovers (document : Document) (start : Workspace) (done : List String)
    (workspace : Workspace) : Prop where
  registered : Registered document workspace
  known : start.known <+: workspace.known
  stubs : ∀ owner ∈ done, ∃ outer, Fields.get? workspace.known owner = some outer ∧
    ∀ entry ∈ outer.definition.properties?.getD [], objectType? entry.2 ≠ none →
      stubName owner entry.1 ∈ Fields.names workspace.known
  made : ∀ name held, Fields.get? workspace.known name = some held →
    Fields.get? start.known name = some held ∨ ForProperty workspace name held

section

variable {start before after : Workspace} {done : List String} {result : Unit}

theorem Discovers.step (discovers : Discovers document start done before)
    (member : name ∈ before.group .custom)
    (ran : (discover (solve (patternsOf document) (layers + 1) []) name).run before =
      .ok (result, after)) :
    Discovers document start (done ++ [name]) after ∧ before.known <+: after.known := by
  obtain ⟨held, known, category⟩ := group_known discovers.registered.sound.distinct member
  simp only [discover, run_bind_ok, run_get_ok, run_lift_ok, Workspace.find,
    Registry.found_ok] at ran
  obtain ⟨_, _, ⟨rfl, rfl⟩, found, _, ⟨present, rfl⟩, ran⟩ := ran
  rw [known] at present
  cases present
  obtain ⟨results, runs⟩ := run_forM_ok ran
  obtain ⟨last, grown, own, rest⟩ := discoverProperties_ok discovers.registered known category
    (fun _ => id) runs
  refine ⟨⟨last, discovers.known.trans grown, ?_, ?_⟩, grown⟩
  · intro owner among
    rw [List.mem_append, List.mem_singleton] at among
    rcases among with old | rfl
    · obtain ⟨outer, found, stubs⟩ := discovers.stubs owner old
      exact ⟨outer, Fields.get?_of_prefix grown found, fun entry declared object =>
        (grown.map Prod.fst).subset (stubs entry declared object)⟩
    · exact ⟨held, Fields.get?_of_prefix grown known, own⟩
  · intro other held found
    rcases rest other held found with old | new
    · exact (discovers.made other held old).imp_right (ForProperty.mono grown)
    · exact .inr new

/-- After discovery every object type has been visited. -/
theorem discoverAll_discovers {rounds : Nat} (registered : Registered document before)
    (ran : (visitCustom (discover (solve (patternsOf document) (layers + 1) [])) rounds 0).run
      before = .ok (result, after)) :
    Discovers document before (after.group .custom) after := by
  have begin : Discovers document before ((before.group .custom).take 0) before := by
    rw [List.take_zero]
    exact ⟨registered, List.prefix_refl _, nofun, fun _ _ => .inl⟩
  exact (@visitCustom_ok _ (Discovers document before)
    (fun _ _ discovers => discovers.registered.sound.distinct)
    (fun _ _ _ _ _ discovers member _ visited => discovers.step member visited)
    _ _ _ _ _ begin (Nat.zero_le _) ran).1

end

end Compile

end TypedSchema
