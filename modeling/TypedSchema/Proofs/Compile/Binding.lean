import TypedSchema.Proofs.Compile.Resolving

/-!
Binding the properties of object types. Every property is made of one entry of the definition: it
has the key of the entry, the conversion of the key for its name, and what the schema of the entry
denotes where it stands.
-/

namespace TypedSchema.Compile

variable {document : Document}

/-! ## Tables under declaration -/

section

variable {composite : Composite}

theorem DirectTable.addProperty (table : DirectTable composite) {property : Property}
    (own : property.WellFormed property.name) : DirectTable (composite.addProperty property) where
  distinct := table.distinct.insert _ _
  properties := by
    intro name other present
    have inserted : Fields.get? (Fields.insert composite.properties property.name property) name =
        some other := present
    rw [Fields.get?_insert] at inserted
    split at inserted
    · rename_i same
      cases inserted
      exact same ▸ own
    · exact table.properties name other inserted
  params := rfl
  catchAll := rfl
  fits := table.fits
  special := table.special
  direct := rfl

theorem DirectTable.addProperties (table : DirectTable composite) {properties : List Property}
    (each : ∀ property ∈ properties, property.WellFormed property.name) :
    DirectTable (properties.foldl Composite.addProperty composite) := by
  induction properties generalizing composite with
  | nil => exact table
  | cons property rest ih =>
    exact ih (table.addProperty (each property List.mem_cons_self)) fun other member =>
      each other (List.mem_cons_of_mem _ member)

theorem DirectTable.setCatchAll (table : DirectTable composite) {catchAll : Option CatchAll}
    (fits : ∀ way, catchAll = some way → Fits True way.type way.caster) :
    DirectTable (composite.setCatchAll catchAll) where
  distinct := table.distinct
  properties := table.properties
  params := rfl
  catchAll := rfl
  fits := fits
  special := table.special
  direct := rfl

theorem DirectTable.addSpecial (table : DirectTable composite) {special : SpecialNames}
    (sound : Naming.Sound special) :
    DirectTable { composite with special := composite.special.union special } :=
  { table with special := table.special.union sound, direct := table.direct }

/-- Properties under their names. -/
def keyed (properties : List Property) : List (String × Property) :=
  properties.map fun property => (property.name, property)

theorem addProperties_eq (properties : List Property) :
    (properties.foldl Composite.addProperty composite).properties =
        Fields.insertAll composite.properties (keyed properties) ∧
      (properties.foldl Composite.addProperty composite).name = composite.name ∧
      (properties.foldl Composite.addProperty composite).lineage = composite.lineage ∧
      (properties.foldl Composite.addProperty composite).description = composite.description ∧
      (properties.foldl Composite.addProperty composite).catchAll = composite.catchAll ∧
      (properties.foldl Composite.addProperty composite).special = composite.special := by
  induction properties generalizing composite with
  | nil => exact ⟨rfl, rfl, rfl, rfl, rfl, rfl⟩
  | cons property rest ih => exact ih

end

/-! ## What is bound -/

/-- The properties of a definition in the order in which they are bound. -/
def bindingOrder (definition : Definition) : List (String × Json) :=
  definition.splitProperties.1 ++ definition.splitProperties.2

theorem mem_splitProperties {definition : Definition} {entry : String × Json} :
    (entry ∈ definition.splitProperties.1 ↔
        entry ∈ definition.properties?.getD [] ∧ definition.required.contains entry.1 = true) ∧
      (entry ∈ definition.splitProperties.2 ↔
        entry ∈ definition.properties?.getD [] ∧ definition.required.contains entry.1 = false) := by
  simp only [Definition.splitProperties, List.partition_eq_filter_filter, List.mem_filter]
  simp

theorem mem_bindingOrder {definition : Definition} {entry : String × Json} :
    entry ∈ bindingOrder definition ↔ entry ∈ definition.properties?.getD [] := by
  unfold bindingOrder
  rw [List.mem_append, mem_splitProperties.1, mem_splitProperties.2]
  cases definition.required.contains entry.1 <;> simp

/-- A property that was made of an entry of the definition of its owner. -/
structure BoundProperty (ownNodes : Prop) (document : Document) (registry : Registry)
    (owner : String) (required : Bool) (entry : String × Json) (property : Property) : Prop where
  external : property.external = entry.1
  name : property.name = Naming.snake entry.1
  typed : ∃ definition resolved, Definition.ofJson entry.2 = .ok definition ∧
    Denotes ownNodes (patternsOf document) registry definition
      (propertyHint owner (Naming.snake entry.1)) resolved ∧
    property.caster = resolved.caster ∧
    property.type = if required then resolved.type else resolved.type.orNull
  default : property.default = if required then .required else .value .null

/-- The way for other keys that was made of the definition of its owner. -/
inductive BoundCatchAll (document : Document) (registry : Registry) (owner : String)
    (definition : Definition) : Option CatchAll → Prop where
  | refused (declared : definition.additionalProperties? = none ∨
      definition.additionalProperties? = some (.bool false)) :
    BoundCatchAll document registry owner definition none
  | anything (declared : definition.additionalProperties? = some (.bool true)) :
    BoundCatchAll document registry owner definition (some ⟨.identity, .any⟩)
  | schema {schema : Json} {inner : Definition} {resolved : Resolved}
    (declared : definition.additionalProperties? = some schema)
    (node : Definition.ofJson schema = .ok inner)
    (denotes : Denotes False (patternsOf document) registry inner
      (owner ++ "_AdditionalProperties") resolved) :
    BoundCatchAll document registry owner definition (some ⟨resolved.caster, resolved.type⟩)

/-- The special names after the keys of entries have been converted. -/
def specialNames (entries : List (String × Json)) (special : SpecialNames) : SpecialNames :=
  entries.foldl (fun sofar entry => (Naming.pascalToSnake entry.1 sofar).2) special

/-- An object type that was bound to its definition. -/
structure BoundTo (document : Document) (registry : Registry) (owner : String)
    (definition : Definition) (composite : Composite) : Prop where
  properties : ∃ properties,
    List.Forall₂ (fun entry => BoundProperty False document registry owner
      (definition.required.contains entry.1) entry) (bindingOrder definition) properties ∧
    composite.properties = Fields.ofList (keyed properties)
  catchAll : BoundCatchAll document registry owner definition composite.catchAll
  special : composite.special = SpecialNames.union [] (specialNames (bindingOrder definition) [])

section

variable {before after : Registry}

theorem BoundProperty.mono {ownNodes : Prop} (extended : Extends before after) {owner : String}
    {required : Bool} {entry : String × Json} {property : Property}
    (bound : BoundProperty ownNodes document before owner required entry property) :
    BoundProperty ownNodes document after owner required entry property := by
  obtain ⟨definition, resolved, node, denotes, typed⟩ := bound.typed
  exact { bound with typed := ⟨definition, resolved, node, denotes.mono extended, typed⟩ }

theorem BoundCatchAll.mono (extended : Extends before after) {owner : String}
    {definition : Definition} {catchAll : Option CatchAll}
    (bound : BoundCatchAll document before owner definition catchAll) :
    BoundCatchAll document after owner definition catchAll := by
  cases bound with
  | refused declared => exact .refused declared
  | anything declared => exact .anything declared
  | schema declared node denotes => exact .schema declared node (denotes.mono extended)

theorem BoundTo.mono (extended : Extends before after) {owner : String} {definition : Definition}
    {composite : Composite} (bound : BoundTo document before owner definition composite) :
    BoundTo document after owner definition composite := by
  obtain ⟨properties, each, equal⟩ := bound.properties
  have grown := each.imp fun _ _ => BoundProperty.mono extended
  exact ⟨⟨properties, grown, equal⟩, bound.catchAll.mono extended, bound.special⟩

theorem BoundProperty.wellFormed {registry : Registry} (fit : EntriesFit registry)
    {owner : String} {required : Bool} {entry : String × Json} {property : Property}
    (bound : BoundProperty False document registry owner required entry property) :
    property.WellFormed property.name := by
  obtain ⟨definition, resolved, -, denotes, caster, type⟩ := bound.typed
  have fits := denotes.fits fit
  constructor
  · rfl
  · rw [bound.name, bound.external]
  · rw [caster, type]
    split
    · exact fits
    · exact fits.orNull
  · rw [bound.default]
    cases required with
    | true => exact .inl rfl
    | false => exact .inr rfl

theorem BoundProperty.known {ownNodes : Prop} {registry : Registry}
    (known : registry.EntriesKnown) {owner : String} {required : Bool} {entry : String × Json}
    {property : Property}
    (bound : BoundProperty ownNodes document registry owner required entry property) :
    property.type.Known registry := by
  obtain ⟨definition, resolved, -, denotes, -, type⟩ := bound.typed
  have inner := denotes.known known
  rw [type]
  split
  · exact inner
  · exact inner.orNull

end

/-! ## Single steps -/

/-- What is discovered has been read from the schema, and only as an object type. -/
theorem objectType?_eq_some {schema : Json} {definition : Definition}
    (found : objectType? schema = some definition) :
    Definition.ofJson schema = .ok definition ∧ definition.shape = .ok .custom := by
  unfold objectType? at found
  split at found
  · cases found
  · rename_i inner node
    split at found
    · cases found
    · split at found
      · rename_i shape
        cases found
        exact ⟨node, shape⟩
      · cases found

section

variable {solve : Solver} (spec : SolverSound document [] solve) {before after : Workspace}
  (sound : Sound document before)

include spec sound

theorem discoverProperty_ok {owner property : String} {schema : Json} {outer : Definition}
    (placed : Placed document outer owner) (object : outer.shape = .ok .custom)
    (declared : (property, schema) ∈ outer.properties?.getD []) {result : Unit}
    (ran : (discoverProperty solve owner property schema).run before = .ok (result, after)) :
    Advances document [] before after := by
  unfold discoverProperty at ran
  split at ran
  · obtain ⟨-, rfl⟩ := run_pure_ok.mp ran
    exact .refl sound
  · rename_i definition found
    simp only [run_bind_ok, run_get_ok] at ran
    obtain ⟨_, _, ⟨rfl, rfl⟩, ran⟩ := ran
    split at ran
    · obtain ⟨_, made⟩ := run_discard_ok.mp ran
      obtain ⟨node, shape⟩ := objectType?_eq_some found
      have inside : Placed document definition (propertyHint owner (Naming.snake property)) :=
        placed.part object (.property declared node)
      exact (resolveAnonymous_ok spec sound ⟨inside, shape, .inr rfl⟩ made).1
    · obtain ⟨-, rfl⟩ := run_pure_ok.mp ran
      exact .refl sound

theorem discoverEach_ok {owner : String} {outer : Definition}
    (placed : Placed document outer owner) (object : outer.shape = .ok .custom)
    {entries : List (String × Json)}
    (declared : ∀ entry ∈ entries, entry ∈ outer.properties?.getD []) {results : List Unit}
    (runs : Runs (fun entry : String × Json => discoverProperty solve owner entry.1 entry.2) entries
      before results after) :
    Advances document [] before after := by
  have steps := @Runs.related _ _ _ _ _ _ _ _
    (fun before after => Sound document before → Advances document [] before after)
    (fun _ => .refl)
    (fun earlier later sound => (earlier sound).trans (later (earlier sound).sound))
    (fun entry member _ _ _ step sound =>
      discoverProperty_ok spec sound placed object (declared entry member) step) runs
  exact steps sound

theorem bindProperties_ok {owner : String} {required : Bool} {outer : Definition}
    (placed : Placed document outer owner) (object : outer.shape = .ok .custom)
    {entries : List (String × Json)}
    (declared : ∀ entry ∈ entries, entry ∈ outer.properties?.getD []) {special : SpecialNames}
    (escaped : Naming.Sound special) {properties : List Property} {later : SpecialNames}
    (ran : (bindProperties solve owner required entries special).run before =
      .ok ((properties, later), after)) :
    Advances document [] before after ∧ Naming.Sound later ∧
      later = specialNames entries special ∧
      List.Forall₂ (BoundProperty False document after.registry owner required) entries
        properties := by
  induction entries generalizing before special properties with
  | nil =>
    obtain ⟨equal, rfl⟩ := run_pure_ok.mp ran
    cases equal
    exact ⟨.refl sound, escaped, rfl, .nil⟩
  | cons entry rest ih =>
    obtain ⟨external, schema⟩ := entry
    simp only [bindProperties, run_bind_ok, run_pure_ok] at ran
    obtain ⟨resolved, between, resolvedRan, ⟨others, last⟩, _, othersRan, equal, rfl⟩ := ran
    cases equal
    -- With sound special names the attribute is that of a fresh conversion.
    rw [Naming.pascalToSnake_fst escaped] at resolvedRan
    have inside : ∀ inner, Definition.ofJson schema = .ok inner →
        Placed document inner (propertyHint owner (Naming.snake external)) := fun inner node =>
      placed.part object (.property (declared _ List.mem_cons_self) node)
    obtain ⟨firstAdvances, definition, node, denotes⟩ :=
      resolveInline_ok spec sound inside resolvedRan
    obtain ⟨advances, lastEscaped, names, bound⟩ := ih firstAdvances.sound
      (fun entry member => declared entry (List.mem_cons_of_mem _ member))
      (escaped.pascalToSnake external) othersRan
    refine ⟨firstAdvances.trans advances, lastEscaped, names, .cons ?_ bound⟩
    have typed : Denotes False (patternsOf document) after.registry definition
        (propertyHint owner (Naming.snake external)) resolved := denotes.mono advances.entries
    cases required with
    | true =>
      exact ⟨rfl, Naming.pascalToSnake_fst escaped external,
        ⟨definition, resolved, node, typed, rfl, rfl⟩, rfl⟩
    | false =>
      exact ⟨rfl, Naming.pascalToSnake_fst escaped external,
        ⟨definition, resolved, node, typed, rfl, rfl⟩, rfl⟩

theorem bindCatchAll_ok {owner : String} {outer : Definition}
    (placed : Placed document outer owner) (object : outer.shape = .ok .custom)
    {catchAll : Option CatchAll}
    (ran : (bindCatchAll solve owner outer).run before = .ok (catchAll, after)) :
    Advances document [] before after ∧
      BoundCatchAll document after.registry owner outer catchAll ∧
      ∀ way, catchAll = some way →
        Fits True way.type way.caster ∧ way.type.Known after.registry := by
  unfold bindCatchAll at ran
  split at ran
  · rename_i absent
    obtain ⟨rfl, rfl⟩ := run_pure_ok.mp ran
    exact ⟨.refl sound, .refused (.inl absent), nofun⟩
  · rename_i refused
    obtain ⟨rfl, rfl⟩ := run_pure_ok.mp ran
    exact ⟨.refl sound, .refused (.inr refused), nofun⟩
  · rename_i anything
    obtain ⟨rfl, rfl⟩ := run_pure_ok.mp ran
    refine ⟨.refl sound, .anything anything, fun way equal => ?_⟩
    cases equal
    exact ⟨.any, .any⟩
  · rename_i schema _ _ declared
    simp only [run_bind_ok, run_pure_ok] at ran
    obtain ⟨resolved, _, resolvedRan, rfl, rfl⟩ := ran
    obtain ⟨advances, inner, node, denotes⟩ := resolveInline_ok spec sound
      (fun inner node => placed.part object (.additional declared node)) resolvedRan
    refine ⟨advances, .schema declared node denotes, fun way equal => ?_⟩
    cases equal
    exact ⟨denotes.fits advances.sound.fit, denotes.known advances.sound.typesKnown.entries⟩

end

/-! ## Object types -/

/-- The table of an object type, once its properties and its way for other keys are known. -/
def declareAll (composite : Composite) (special : SpecialNames) (properties : List Property)
    (catchAll : Option CatchAll) : Composite :=
  let declared := properties.foldl Composite.addProperty
    { composite with special := composite.special.union special }
  if catchAll.isSome then declared.setCatchAll catchAll else declared

theorem declareAll_table {composite : Composite} (table : DirectTable composite)
    {special : SpecialNames} (escaped : Naming.Sound special) {properties : List Property}
    (each : ∀ property ∈ properties, property.WellFormed property.name)
    {catchAll : Option CatchAll}
    (fits : ∀ way, catchAll = some way → Fits True way.type way.caster) :
    DirectTable (declareAll composite special properties catchAll) := by
  have declared := (table.addSpecial escaped).addProperties each
  unfold declareAll
  split
  · exact declared.setCatchAll fits
  · exact declared

theorem declareAll_eq {composite : Composite} (unbound : Unbound composite)
    (special : SpecialNames) (properties : List Property) (catchAll : Option CatchAll) :
    (declareAll composite special properties catchAll).properties =
        Fields.ofList (keyed properties) ∧
      (declareAll composite special properties catchAll).name = composite.name ∧
      (declareAll composite special properties catchAll).lineage = composite.lineage ∧
      (declareAll composite special properties catchAll).description = composite.description ∧
      (declareAll composite special properties catchAll).catchAll = catchAll ∧
      (declareAll composite special properties catchAll).special =
        SpecialNames.union [] special := by
  obtain ⟨declared, name, lineage, description, none, names⟩ := @addProperties_eq
    { composite with special := composite.special.union special } properties
  replace declared := declared.trans
    (congrArg (Fields.insertAll · (keyed properties)) unbound.properties)
  replace names := names.trans (congrArg (SpecialNames.union · special) unbound.special)
  unfold declareAll
  cases catchAll with
  | some way => exact ⟨declared, name, lineage, description, rfl, names⟩
  | none => exact ⟨declared, name, lineage, description, none.trans unbound.catchAll, names⟩

theorem Sound.setComposite {workspace : Workspace} (sound : Sound document workspace)
    {name : String} {old new : Composite}
    (present : Fields.get? workspace.registry.composites name = some old)
    (table : DirectTable new) (named : new.name = name) (lineage : new.lineage = old.lineage)
    (custom : old.lineage = .custom)
    (description : new.description = old.description)
    (typed : new.TypesKnown workspace.registry) :
    Sound document { workspace with registry := workspace.registry.setComposite new } := by
  have composites : ∀ other,
      Fields.get? (workspace.registry.setComposite new).composites other =
        if other = name then some new else Fields.get? workspace.registry.composites other :=
    fun other => by rw [Registry.setComposite, Fields.get?_insert, named]
  have keeps : workspace.registry.Keeps (workspace.registry.setComposite new) := by
    refine ⟨fun other has => ⟨has.registered, ?_⟩, fun other has => ⟨has.registered, has.described⟩⟩
    rw [composites]
    split
    · exact ⟨new, rfl⟩
    · exact has.described
  constructor
  · exact sound.distinct
  · exact sound.known
  · intro other entry found
    have own := sound.entries other entry found
    refine { own with made := own.made.mono (List.prefix_refl _) ?_ rfl }
    show Option.map _ (Fields.get? (workspace.registry.setComposite new).composites other) = _
    rw [composites]
    split
    · rename_i same
      rw [same, present, Option.map_some, Option.map_some, lineage, description]
    · rfl
  · intro other composite found
    have inserted := (composites other).symm.trans found
    split at inserted
    · rename_i same
      cases inserted
      refine ⟨table, same ▸ named, fun inherits => ?_,
        same ▸ (sound.composites name old present).registered⟩
      exact absurd (lineage.trans custom) inherits
    · have declared := sound.composites other composite inserted
      exact { declared with registered := declared.registered }
  · exact sound.enumerations
  · refine ⟨fun other entry found => (sound.typesKnown.entries other entry found).mono keeps, ?_⟩
    intro other composite found
    have inserted := (composites other).symm.trans found
    split at inserted
    · cases inserted
      exact typed.mono keeps
    · exact (sound.typesKnown.tables other composite inserted).mono keeps
  · exact sound.tables.setComposite new

/-- An object type that is bound to the definition known under its name. -/
def BoundIn (document : Document) (workspace : Workspace) (name : String) : Prop :=
  ∃ held composite, Fields.get? workspace.known name = some held ∧
    Fields.get? workspace.registry.composites name = some composite ∧
    composite.lineage = .custom ∧
    BoundTo document workspace.registry name held.definition composite

/-- What binding one object type does to a workspace. -/
structure Binds (document : Document) (name : String) (before after : Workspace) : Prop where
  sound : Sound document after
  known : before.known <+: after.known
  entries : Extends before.registry after.registry
  others : ∀ other ∈ Fields.names before.registry.entries, other ≠ name →
    Fields.get? after.registry.composites other = Fields.get? before.registry.composites other
  created : ∀ other, other ∉ Fields.names before.registry.entries → other ≠ name →
    ∀ composite, Fields.get? after.registry.composites other = some composite → Unbound composite
  adopted : ∀ other ∈ Fields.names after.known,
    other ∈ Fields.names before.known ∨ other ∈ Fields.names after.registry.entries
  bound : BoundIn document after name

/-- The table of an object type is completed after its parts have been resolved. -/
theorem Advances.thenBind {before between : Workspace}
    (advances : Advances document [] before between) {name : String} {held : Classified}
    (known : Fields.get? before.known name = some held) (category : held.category = .custom)
    (unbound : ∀ composite, Fields.get? before.registry.composites name = some composite →
      Unbound composite) {composite : Composite}
    (table : Fields.get? between.registry.composites name = some composite)
    {special : SpecialNames} (escaped : Naming.Sound special)
    (names : special = specialNames (bindingOrder held.definition) []) {properties : List Property}
    (all : List.Forall₂ (fun entry => BoundProperty False document between.registry name
      (held.definition.required.contains entry.1) entry) (bindingOrder held.definition) properties)
    {catchAll : Option CatchAll}
    (catchAllBound : BoundCatchAll document between.registry name held.definition catchAll)
    (ways : ∀ way, catchAll = some way →
      Fits True way.type way.caster ∧ way.type.Known between.registry) :
    Binds document name before { between with
      registry := between.registry.setComposite
        (declareAll composite special properties catchAll) } := by
  obtain ⟨direct, own, -, registered⟩ := advances.sound.composites name composite table
  -- The table that is completed is still empty, whether it was there before or was just made.
  have empty : Unbound composite := by
    by_cases old : name ∈ Fields.names before.registry.entries
    · rw [advances.composites name old] at table
      exact unbound composite table
    · exact advances.created name old composite table
  have lineage : composite.lineage = .custom := by
    obtain ⟨entry, present⟩ := Fields.mem_names_iff.mp registered
    have entrySound := advances.sound.entries name entry present
    obtain ⟨origin, originKnown, -, same⟩ := entrySound.origin
    rw [advances.find known] at originKnown
    cases originKnown
    obtain ⟨earlier, later, lineage, -, -, made, described⟩ := entrySound.made.made
    rw [table, made.lineage_of_custom (same.trans category), Option.map_some, Option.map_some,
      Option.some.injEq, Prod.mk.injEq] at described
    exact described.1
  have each : ∀ property ∈ properties, property.WellFormed property.name := by
    intro property member
    obtain ⟨entry, -, bound⟩ := Lists.source_of_result all member
    exact bound.wellFormed advances.sound.fit
  obtain ⟨inserted, sameName, sameLineage, sameDescription, sameCatchAll, sameSpecial⟩ :=
    declareAll_eq empty special properties catchAll
  have complete := declareAll_table direct escaped each fun way takes => (ways way takes).1
  have named := sameName.trans own
  have typed : (declareAll composite special properties catchAll).TypesKnown between.registry := by
    constructor
    · intro property member
      obtain ⟨entry, held, rfl⟩ := List.mem_map.mp member
      rw [inserted] at held
      have listed := (Fields.mem_insertAll held).resolve_right List.not_mem_nil
      obtain ⟨source, sourceMember, rfl⟩ := List.mem_map.mp listed
      obtain ⟨schema, -, bound⟩ := Lists.source_of_result all sourceMember
      exact bound.known advances.sound.typesKnown.entries
    · rw [sameCatchAll]
      exact fun way takes => (ways way takes).2
  have composites : ∀ other,
      Fields.get? (between.registry.setComposite
          (declareAll composite special properties catchAll)).composites other =
        if other = name then some (declareAll composite special properties catchAll)
        else Fields.get? between.registry.composites other :=
    fun other => by rw [Registry.setComposite, Fields.get?_insert, named]
  have extended : Extends between.registry (between.registry.setComposite
      (declareAll composite special properties catchAll)) := fun _ _ => id
  have bound : BoundTo document between.registry name held.definition
      (declareAll composite special properties catchAll) :=
    ⟨⟨properties, all, inserted⟩, by rw [sameCatchAll]; exact catchAllBound,
      by rw [sameSpecial, names]⟩
  constructor
  · exact advances.sound.setComposite table complete named sameLineage lineage sameDescription typed
  · exact advances.known
  · exact advances.entries.trans extended
  · intro other old different
    rw [composites, if_neg different, advances.composites other old]
  · intro other new different found present
    rw [composites, if_neg different] at present
    exact advances.created other new found present
  · exact advances.adopted
  · refine ⟨held, _, advances.find known, by rw [composites, if_pos rfl], ?_, bound.mono extended⟩
    exact sameLineage.trans lineage

section

variable {solve : Solver} (spec : SolverSound document [] solve) {before after : Workspace}
  (sound : Sound document before) {name : String} {held : Classified}
  (known : Fields.get? before.known name = some held) (category : held.category = .custom)

include spec sound known category

theorem discover_ok {result : Unit}
    (ran : (discover solve name).run before = .ok (result, after)) :
    Advances document [] before after := by
  simp only [discover, run_bind_ok, run_get_ok, run_lift_ok, Workspace.find,
    Registry.found_ok] at ran
  obtain ⟨_, _, ⟨rfl, rfl⟩, found, _, ⟨present, rfl⟩, ran⟩ := ran
  rw [known] at present
  cases present
  have named := sound.known name held known
  rw [category] at named
  obtain ⟨results, runs⟩ := run_forM_ok ran
  exact discoverEach_ok spec sound named.placed named.shape (fun _ => id) runs

theorem bind_ok
    (unbound : ∀ composite, Fields.get? before.registry.composites name = some composite →
      Unbound composite) {result : Unit}
    (ran : (bind solve name).run before = .ok (result, after)) :
    Binds document name before after := by
  simp only [bind, run_bind_ok, run_get_ok, run_lift_ok, run_modify_ok, Workspace.find,
    Registry.composite, Registry.found_ok] at ran
  obtain ⟨_, _, ⟨rfl, rfl⟩, found, _, ⟨present, rfl⟩, ⟨first, special⟩, _, firstRan,
    ⟨second, later⟩, _, secondRan, catchAll, _, catchAllRan, _, between, ⟨rfl, rfl⟩, composite, _,
    ⟨table, rfl⟩, rfl⟩ := ran
  rw [known] at present
  cases present
  have named := sound.known name held known
  rw [category] at named
  obtain ⟨firstAdvances, firstEscaped, rfl, required⟩ := bindProperties_ok spec sound named.placed
    named.shape (fun entry member => (mem_splitProperties.1.mp member).1) .nil firstRan
  obtain ⟨secondAdvances, secondEscaped, rfl, optional⟩ := bindProperties_ok spec firstAdvances.sound
    named.placed named.shape (fun entry member => (mem_splitProperties.2.mp member).1) firstEscaped
    secondRan
  obtain ⟨lastAdvances, catchAllBound, ways⟩ := bindCatchAll_ok spec secondAdvances.sound
    named.placed named.shape catchAllRan
  have advances := (firstAdvances.trans secondAdvances).trans lastAdvances
  have requiredLast := ((List.forall₂_and_left _ _).mpr
    ⟨fun entry member => (mem_splitProperties.1.mp member).2, required⟩).imp
      fun entry property held => held.1.symm ▸
        held.2.mono (secondAdvances.entries.trans lastAdvances.entries)
  have optionalLast := ((List.forall₂_and_left _ _).mpr
    ⟨fun entry member => (mem_splitProperties.2.mp member).2, optional⟩).imp
      fun entry property held => held.1.symm ▸ held.2.mono lastAdvances.entries
  exact advances.thenBind known category unbound table secondEscaped
    (List.foldl_append ..).symm
    (List.rel_append requiredLast optionalLast) catchAllBound ways

end

end TypedSchema.Compile
