import TypedSchema.Proofs.Compile.Owning

/-!
References between schemas, and the order of registration. A name is registered once everything that
its schema refers to is, as far as no object type stands in between: what an object type holds is
left for later.
-/

namespace TypedSchema.Compile

/-! ## References -/

/-- The names that a schema refers to for its own type. -/
inductive RefersTo (definition : Definition) : String → Prop where
  | reference {target : String} (shape : definition.shape = .ok .passthrough)
    (referred : definition.referenceName? = some target) : RefersTo definition target
  | parent {part : Json} {inner : Definition} {target : String}
    (shape : definition.shape = .ok .multiInheritance)
    (declared : part ∈ definition.allOf?.getD []) (node : Definition.ofJson part = .ok inner)
    (own : inner.shape = .ok .passthrough) (referred : inner.referenceName? = some target) :
    RefersTo definition target
  | key {discriminator : Discriminator} {key target : String}
    (shape : definition.shape = .ok .polymorph) (allOf : definition.allOf? = none)
    (found : definition.discriminator? = .ok (some discriminator))
    (mapped : (key, target) ∈ targetsOf definition discriminator) : RefersTo definition target

/-- The schemas that are resolved with an outer one: itself, and at any depth those inside, without
those of object types. -/
inductive Within (owner : String) (outer : Definition) : Definition → String → Prop where
  | self : Within owner outer outer owner
  | part {middle inner : Definition} {name hint : String} {category : Category}
    (within : Within owner outer middle name) (shape : middle.shape = .ok category)
    (other : category ≠ .custom) (part : Part name middle category inner hint) :
    Within owner outer inner hint

/-- Registering a name waits for a target: a schema that takes the name refers to it, itself or in a
schema that is resolved with it. -/
def Awaits (document : Document) (name target : String) : Prop :=
  ∃ outer category inner hint, Named document name outer category ∧
    Within name outer inner hint ∧ RefersTo inner target

/-- References are to listed definitions, and to none of the types that are made for schemas in their
place. -/
def ReferencesListed (document : Document) : Prop :=
  ∀ definition name target inner category, Placed document definition name →
    RefersTo definition target → Named document target inner category →
      target ∈ Fields.names document.definitions

/-- Some name waits for itself in the end. -/
def Cyclic (document : Document) : Prop :=
  ∃ name, Relation.TransGen (Awaits document) name name

section

variable {document : Document} {owner hint : String} {outer inner : Definition}

theorem Within.placed (placed : Placed document outer owner)
    (within : Within owner outer inner hint) : Placed document inner hint := by
  induction within with
  | self => exact placed
  | part _ shape _ part ih => exact ih.part shape part

/-- What an object type refers to is left for later. -/
theorem Within.eq_of_custom (custom : outer.shape = .ok .custom)
    (within : Within owner outer inner hint) : inner = outer ∧ hint = owner := by
  induction within with
  | self => exact ⟨rfl, rfl⟩
  | part _ shape other _ ih =>
    rw [ih.1, custom] at shape
    cases shape
    exact absurd rfl other

theorem RefersTo.category {target : String} (refers : RefersTo inner target) :
    ∃ category, inner.shape = .ok category ∧ category ≠ .custom ∧ category ≠ .enumeration := by
  cases refers with
  | reference shape => exact ⟨_, shape, nofun, nofun⟩
  | parent shape => exact ⟨_, shape, nofun, nofun⟩
  | key shape => exact ⟨_, shape, nofun, nofun⟩

end

/-! ## What is asked for first -/

section

variable {document : Document} {past : Registry} {name target : String} {definition : Definition}
  {category : Category} {resolved : Resolved}

theorem Shaped.refers {patterns : Patterns}
    (shaped : Shaped False patterns past category definition name resolved)
    (inPlace : isAnonymous category = false) (shape : definition.shape = .ok category)
    (refers : RefersTo definition target) : target ∈ Fields.names past.entries := by
  cases refers with
  | reference own referred =>
    rw [shape] at own
    cases own
    cases shaped with
    | reference _ found present =>
      rw [referred] at found
      cases found
      exact Fields.mem_names_iff.mpr ⟨_, present⟩
    | anonymous named => cases named
  | parent own =>
    rw [shape] at own
    cases own
    cases inPlace
  | key own allOf found mapped =>
    rw [shape] at own
    cases own
    cases shaped with
    | conditional parts =>
      rw [allOf] at parts
      cases parts
    | keyed _ _ read targets =>
      rw [found] at read
      cases read
      obtain ⟨branch, -, entry, present, -⟩ := Lists.result_of_source targets mapped
      exact Fields.mem_names_iff.mpr ⟨entry, present⟩
    | anonymous named => cases named

theorem Made.refers {lineage : Option Lineage}
    (made : Made document past name definition category resolved lineage)
    (shape : definition.shape = .ok category) (refers : RefersTo definition target) :
    target ∈ Fields.names past.entries := by
  obtain ⟨own, found, object, listed⟩ := refers.category
  rw [shape] at found
  cases found
  cases made with
  | custom => exact absurd rfl object
  | enumeration => exact absurd rfl listed
  | shaped inPlace _ shaped => exact shaped.refers inPlace shape refers
  | heir found present =>
    have shaped : Shaped False (patternsOf document) past .passthrough definition name _ :=
      .reference name found present
    exact shaped.refers rfl shape refers
  | synonym found present =>
    have shaped : Shaped False (patternsOf document) past .passthrough definition name _ :=
      .reference name found present
    exact shaped.refers rfl shape refers
  | combined each =>
    cases refers with
    | reference own => rw [shape] at own; cases own
    | key own => rw [shape] at own; cases own
    | parent _ declared node own referred =>
      obtain ⟨index, bound, same⟩ := List.getElem_of_mem declared
      have listed : (_, index) ∈ (definition.allOf?.getD []).zipIdx :=
        List.mem_zipIdx_iff_getElem?.mpr (List.getElem?_eq_some_iff.mpr ⟨bound, same⟩)
      obtain ⟨parent, -, made⟩ := Lists.result_of_source each listed
      obtain ⟨_, entry, found, present, -⟩ := made.of_passthrough node own
      rw [referred] at found
      cases found
      exact Fields.mem_names_iff.mpr ⟨entry, present⟩

end

/-! ## The order of registration -/

/-- The place of a name in the order of registration. -/
def position (registry : Registry) (name : String) : Nat :=
  (Fields.names registry.entries).idxOf name

/-- What had been registered when a name was. -/
structure Past (registry : Registry) (name : String) (past : Registry) : Prop where
  entries : Extends past registry
  before : ∀ target ∈ Fields.names past.entries, position registry target < position registry name

section

variable {document : Document} {workspace : Workspace} {name : String}

theorem MadeIn.history {registry : Registry} {entry : Entry}
    (made : MadeIn document registry name entry) :
    ∃ past lineage, Past registry name past ∧
      Made document past name entry.definition entry.category ⟨entry.type, entry.caster⟩ lineage ∧
      (Fields.get? registry.composites name).map (fun composite =>
        (composite.lineage, composite.description)) =
          lineage.map fun lineage => (lineage, entry.definition.description?) := by
  obtain ⟨past, later, lineage, place, fresh, own, table⟩ := made.made
  refine ⟨past, lineage, ⟨fun target held present => ?_, fun target registered => ?_⟩, own, table⟩
  · rw [place, Fields.get?_append, present, Option.some_or]
  · have names : Fields.names registry.entries =
        Fields.names past.entries ++ name :: Fields.names later := by
      rw [place, Fields.names, List.map_append]
      rfl
    rw [position, position, names, List.idxOf_append_of_mem registered,
      List.idxOf_append_of_notMem fresh]
    have within := List.idxOf_lt_length_of_mem registered
    omega

variable (sound : Sound document workspace) (apart : NamesApart document)

include sound apart

/-- What is registered was made by what had been registered before it. -/
theorem Sound.history {definition : Definition} {category : Category}
    (named : Named document name definition category)
    (registered : name ∈ Fields.names workspace.registry.entries) :
    ∃ past resolved lineage, Past workspace.registry name past ∧
      Made document past name definition category resolved lineage := by
  obtain ⟨entry, present, rfl, rfl⟩ := sound.made_of_registered apart named registered
  obtain ⟨past, lineage, order, made, -⟩ := (sound.entries name entry present).made.history
  exact ⟨past, _, lineage, order, made⟩

/-- The schemas resolved with a name were resolved before it. -/
theorem Sound.within {outer inner : Definition} {category : Category} {hint : String}
    (named : Named document name outer category)
    (registered : name ∈ Fields.names workspace.registry.entries)
    (within : Within name outer inner hint) :
    (inner = outer ∧ hint = name) ∨
      ∃ past resolved, Past workspace.registry name past ∧
        Denotes False (patternsOf document) past inner hint resolved := by
  induction within with
  | self => exact .inl ⟨rfl, rfl⟩
  | @part middle inner between hint own within shape other part ih =>
    refine .inr ?_
    have placed := within.placed named.placed
    cases ih with
    | inl same =>
      obtain ⟨rfl, rfl⟩ := same
      obtain ⟨past, _, _, order, made⟩ := sound.history apart named registered
      rw [named.shape] at shape
      cases shape
      obtain ⟨resolved, denotes⟩ := made.explored other inner hint part
      exact ⟨past, resolved, order, denotes⟩
    | inr denoted =>
      obtain ⟨past, resolved, order, denotes⟩ := denoted
      by_cases anonymous : isAnonymous own = true
      · -- A schema with a type of its own was resolved before that was registered.
        have earlier := denotes.registered shape anonymous
        have there := order.entries.names earlier
        obtain ⟨older, _, _, olderOrder, made⟩ :=
          sound.history apart ⟨placed, shape, .inr anonymous⟩ there
        obtain ⟨inside, insideDenotes⟩ := made.explored other inner hint part
        refine ⟨older, inside, ⟨olderOrder.entries, fun target member => ?_⟩, insideDenotes⟩
        exact Nat.lt_trans (olderOrder.before target member) (order.before _ earlier)
      · obtain ⟨inside, insideDenotes⟩ :=
          (denotes.of_shape shape).contents (by simpa using anonymous) part
        exact ⟨past, inside, order, insideDenotes⟩

/-- Whatever the registration of a name waits for is registered before it. -/
theorem Sound.awaited {outer inner : Definition} {category : Category} {hint target : String}
    (named : Named document name outer category)
    (registered : name ∈ Fields.names workspace.registry.entries)
    (within : Within name outer inner hint) (refers : RefersTo inner target) :
    position workspace.registry target < position workspace.registry name := by
  cases sound.within apart named registered within with
  | inl same =>
    obtain ⟨rfl, rfl⟩ := same
    obtain ⟨past, _, _, order, made⟩ := sound.history apart named registered
    exact order.before target (made.refers named.shape refers)
  | inr denoted =>
    obtain ⟨past, resolved, order, denotes⟩ := denoted
    obtain ⟨own, shape, -⟩ := refers.category
    by_cases anonymous : isAnonymous own = true
    · have earlier := denotes.registered shape anonymous
      obtain ⟨older, _, _, olderOrder, made⟩ := sound.history apart
        ⟨within.placed named.placed, shape, .inr anonymous⟩ (order.entries.names earlier)
      exact Nat.lt_trans (olderOrder.before target (made.refers shape refers))
        (order.before _ earlier)
    · exact order.before target
        ((denotes.of_shape shape).refers (by simpa using anonymous) shape refers)

end

/-- Whatever a name waits for was registered before it, so none of a compiled document waits for
itself. -/
theorem Compiled.not_cyclic {document : Document} {workspace : Workspace} {registry : Registry}
    (compiled : Compiled document workspace registry) (apart : NamesApart document) :
    ¬Cyclic document := by
  rintro ⟨name, cycle⟩
  have earlier : ∀ first second, Awaits document first second →
      position workspace.registry second < position workspace.registry first := by
    rintro first second ⟨outer, category, inner, hint, named, within, refers⟩
    exact compiled.sound.awaited apart named (compiled.registered apart named) within refers
  have descends : Relation.TransGen (fun first second : Nat => first > second) _ _ :=
    cycle.lift (position workspace.registry) earlier
  rw [Relation.transGen_eq_self] at descends
  exact Nat.lt_irrefl _ descends

end TypedSchema.Compile
