import TypedSchema.Proofs.Compile.Denotes
import TypedSchema.Proofs.Compile.Run

/-!
How a workspace changes while schemas are resolved. What is known and what is registered stays, and
types under registration are not registered by anything that their registration waits for.
-/

namespace TypedSchema.Compile

/-! ## Sound workspaces -/

/-- A composite type that does not inherit yet: its initializer is its own. -/
structure DirectTable (composite : Composite) : Prop extends composite.Coherent where
  direct : composite.initializer = .direct composite.ownSignature

theorem DirectTable.empty (name : String) (lineage : Lineage) (description : Option String) :
    DirectTable (.empty name lineage description) where
  distinct := List.nodup_nil
  properties := fun _ _ impossible => by cases impossible
  params := rfl
  catchAll := rfl
  fits := fun _ impossible => by cases impossible
  special := .nil
  direct := rfl

/-- Every schema inside a definition has been resolved. -/
def Explored (document : Document) (registry : Registry) (name : String) (definition : Definition)
    (category : Category) : Prop :=
  ∀ inner hint, Part name definition category inner hint →
    ∃ resolved, Denotes False (patternsOf document) registry inner hint resolved

/-- The composite type that a member of an `allOf` stands for, by what was registered before: the one
that it refers to, or the one that was made for it in its place. -/
inductive ParentMade (earlier : Registry) (name : String) : Json × Nat → String → Prop where
  | reference {part : Json × Nat} {inner : Definition} {target parent : String} {entry : Entry}
    (node : Definition.ofJson part.1 = .ok inner) (shape : inner.shape = .ok .passthrough)
    (referred : inner.referenceName? = some target)
    (present : Fields.get? earlier.entries target = some entry)
    (typed : entry.type = .composite parent) : ParentMade earlier name part parent
  | inPlace {part : Json × Nat} {inner : Definition} {category : Category}
    (node : Definition.ofJson part.1 = .ok inner) (shape : inner.shape = .ok category)
    (anonymous : isAnonymous category = true) (object : category ≠ .enumeration)
    (registered : s!"{name}_Parent{part.2}" ∈ Fields.names earlier.entries) :
    ParentMade earlier name part s!"{name}_Parent{part.2}"

/-- What is registered for a definition by what was registered before, and its lineage if it is a
composite type. -/
inductive Made (document : Document) (earlier : Registry) (name : String)
    (definition : Definition) : Category → Resolved → Option Lineage → Prop where
  | custom :
    Made document earlier name definition .custom ⟨.composite name, .composite name⟩ (some .custom)
  | enumeration {enumeration : Enumeration}
    (read : Enumeration.ofDefinition name definition = .ok enumeration) :
    Made document earlier name definition .enumeration ⟨.enumeration name, .enumeration name⟩ none
  | heir {target parent : String} {entry : Entry}
    (referred : definition.referenceName? = some target)
    (present : Fields.get? earlier.entries target = some entry)
    (typed : entry.type = .composite parent) :
    Made document earlier name definition .passthrough ⟨.composite name, .composite name⟩
      (some (.passthrough parent))
  | synonym {target : String} {entry : Entry} (referred : definition.referenceName? = some target)
    (present : Fields.get? earlier.entries target = some entry)
    (other : ∀ parent, entry.type ≠ .composite parent) :
    Made document earlier name definition .passthrough ⟨entry.type, entry.caster⟩ none
  | combined {parents : List String}
    (each : List.Forall₂ (ParentMade earlier name) (definition.allOf?.getD []).zipIdx parents) :
    Made document earlier name definition .multiInheritance ⟨.composite name, .composite name⟩
      (some (.combined parents))
  | shaped {category : Category} {resolved : Resolved} (inPlace : isAnonymous category = false)
    (other : category ≠ .passthrough)
    (inner : Shaped False (patternsOf document) earlier category definition name resolved) :
    Made document earlier name definition category resolved none

/-- An entry that was made of what stands before it in a registry, and what the registry has besides
under its name. -/
structure MadeIn (document : Document) (registry : Registry) (name : String) (entry : Entry) :
    Prop where
  named : entry.name = name
  enumerated : ∀ enumeration, Fields.get? registry.enumerations name = some enumeration ↔
    entry.category = .enumeration ∧
      Enumeration.ofDefinition name entry.definition = .ok enumeration
  made : ∃ earlier later lineage, registry.entries = earlier.entries ++ (name, entry) :: later ∧
    name ∉ Fields.names earlier.entries ∧
    Made document earlier name entry.definition entry.category ⟨entry.type, entry.caster⟩ lineage ∧
    (Fields.get? registry.composites name).map (fun composite =>
      (composite.lineage, composite.description)) =
        lineage.map fun lineage => (lineage, entry.definition.description?)

/-- An entry that was made from the definition known under its name. -/
structure EntrySound (document : Document) (workspace : Workspace) (name : String)
    (entry : Entry) : Prop extends entry.WellFormed name where
  made : MadeIn document workspace.registry name entry
  origin : ∃ held, Fields.get? workspace.known name = some held ∧
    entry.definition = held.definition ∧ entry.category = held.category

/-- A composite type that was declared under a registered name. Types that inherit have no special
names of their own. -/
structure Declared (registry : Registry) (name : String) (composite : Composite) : Prop
    extends DirectTable composite where
  named : composite.name = name
  plain : composite.lineage ≠ .custom → composite.special = []
  registered : name ∈ Fields.names registry.entries

structure Sound (document : Document) (workspace : Workspace) : Prop where
  distinct : Fields.Distinct workspace.known
  known : ∀ name held, Fields.get? workspace.known name = some held →
    Named document name held.definition held.category
  entries : ∀ name entry, Fields.get? workspace.registry.entries name = some entry →
    EntrySound document workspace name entry
  composites : ∀ name composite,
    Fields.get? workspace.registry.composites name = some composite →
      Declared workspace.registry name composite
  enumerations : ∀ name enumeration,
    Fields.get? workspace.registry.enumerations name = some enumeration →
      enumeration.name = name ∧ enumeration.WellFormed ∧
        name ∈ Fields.names workspace.registry.entries
  typesKnown : workspace.registry.TypesKnown
  tables : workspace.registry.Distinct

variable {document : Document}

theorem Explored.mono {before after : Registry} (extended : Extends before after) {name : String}
    {definition : Definition} {category : Category}
    (explored : Explored document before name definition category) :
    Explored document after name definition category := by
  intro inner hint part
  obtain ⟨resolved, denotes⟩ := explored inner hint part
  exact ⟨resolved, denotes.mono extended⟩

namespace ParentMade

variable {before after : Registry} {name parent : String} {part : Json × Nat} {inner : Definition}
  {category : Category}

theorem mono (extended : Extends before after) (made : ParentMade before name part parent) :
    ParentMade after name part parent := by
  cases made with
  | reference node shape referred present typed =>
    exact .reference node shape referred (extended _ _ present) typed
  | inPlace node shape anonymous object registered =>
    obtain ⟨entry, present⟩ := Fields.mem_names_iff.mp registered
    exact .inPlace node shape anonymous object
      (Fields.mem_names_iff.mpr ⟨entry, extended _ _ present⟩)

theorem shaped (made : ParentMade before name part parent) :
    ∃ inner, Definition.ofJson part.1 = .ok inner ∧ ∃ category, inner.shape = .ok category := by
  cases made with
  | reference node shape => exact ⟨_, node, _, shape⟩
  | inPlace node shape => exact ⟨_, node, _, shape⟩

section

variable (made : ParentMade before name part parent) (node : Definition.ofJson part.1 = .ok inner)

include made node

/-- A member that is a reference stands for the composite type of the name that it refers to. -/
theorem of_passthrough (shape : inner.shape = .ok .passthrough) :
    ∃ target entry, inner.referenceName? = some target ∧
      Fields.get? before.entries target = some entry ∧ entry.type = .composite parent := by
  cases made with
  | reference read _ referred present typed =>
    rw [node] at read
    cases read
    exact ⟨_, _, referred, present, typed⟩
  | inPlace read own anonymous =>
    rw [node] at read
    cases read
    rw [shape] at own
    cases own
    cases anonymous

/-- Any other member stands for the type that was made in its place. -/
theorem of_inPlace (shape : inner.shape = .ok category) (other : category ≠ .passthrough) :
    isAnonymous category = true ∧ category ≠ .enumeration ∧
      parent = s!"{name}_Parent{part.2}" ∧ parent ∈ Fields.names before.entries := by
  cases made with
  | reference read own =>
    rw [node] at read
    cases read
    rw [shape] at own
    cases own
    exact absurd rfl other
  | inPlace read own anonymous object registered =>
    rw [node] at read
    cases read
    rw [shape] at own
    cases own
    exact ⟨anonymous, object, rfl, registered⟩

end

end ParentMade

/-- Entries stay as they were made while others are registered after them. -/
theorem MadeIn.mono {before after : Registry} {name : String} {entry : Entry}
    (made : MadeIn document before name entry) (entries : before.entries <+: after.entries)
    (composites : (Fields.get? after.composites name).map (fun composite =>
      (composite.lineage, composite.description)) =
        (Fields.get? before.composites name).map fun composite =>
          (composite.lineage, composite.description))
    (enumerations : Fields.get? after.enumerations name = Fields.get? before.enumerations name) :
    MadeIn document after name entry where
  named := made.named
  enumerated := by
    rw [enumerations]
    exact made.enumerated
  made := by
    obtain ⟨earlier, later, lineage, place, fresh, own, table⟩ := made.made
    obtain ⟨more, grown⟩ := entries
    refine ⟨earlier, later ++ more, lineage, ?_, fresh, own, composites.trans table⟩
    rw [← grown, place, List.append_assoc, List.cons_append]

namespace Made

variable {earlier : Registry} {name : String} {definition : Definition} {category : Category}
  {resolved : Resolved} {lineage : Option Lineage}
  (made : Made document earlier name definition category resolved lineage)

include made

/-- Every schema inside has been resolved by then, but for those of an object type. -/
theorem explored (other : category ≠ .custom) :
    Explored document earlier name definition category := by
  intro inner hint part
  cases made with
  | custom => exact absurd rfl other
  | combined each =>
    cases part with
    | parent declared node shape named =>
      obtain ⟨parent, -, own⟩ := Lists.result_of_source each declared
      obtain ⟨-, -, rfl, registered⟩ :=
        own.of_inPlace node shape (ne_passthrough_of_anonymous named)
      obtain ⟨entry, present⟩ := Fields.mem_names_iff.mp registered
      exact ⟨_, .shaped (Definition.constrained_of_shape shape) shape
        (.anonymous named present False.elim)⟩
  | shaped inPlace _ shaped => exact shaped.contents inPlace part
  | enumeration => cases part
  | heir => cases part
  | synonym => cases part

/-- Composite types are declared under their own names; those that inherit are of the categories
whose types are completed in the end. -/
theorem declared {own : Lineage} (composite : lineage = some own) :
    resolved = ⟨.composite name, .composite name⟩ ∧
      (own = .custom ∨ category = .passthrough ∨ category = .multiInheritance) := by
  subst composite
  cases made with
  | custom => exact ⟨rfl, .inl rfl⟩
  | heir => exact ⟨rfl, .inr (.inl rfl)⟩
  | combined => exact ⟨rfl, .inr (.inr rfl)⟩

theorem lineage_of_custom (custom : category = .custom) : lineage = some .custom := by
  subst custom
  cases made with
  | custom => rfl
  | shaped inPlace => cases inPlace

end Made

theorem EntrySound.explored {workspace : Workspace} {name : String} {entry : Entry}
    (sound : EntrySound document workspace name entry) (other : entry.category ≠ .custom) :
    Explored document workspace.registry name entry.definition entry.category := by
  obtain ⟨earlier, later, lineage, place, -, made, -⟩ := sound.made.made
  refine (made.explored other).mono fun other held present => ?_
  rw [place, Fields.get?_append, present, Option.some_or]

/-- The entry of a composite type is of the type, and of a category that goes with the lineage. -/
theorem Sound.described {workspace : Workspace} (sound : Sound document workspace) {name : String}
    {composite : Composite}
    (present : Fields.get? workspace.registry.composites name = some composite) :
    ∃ entry, Fields.get? workspace.registry.entries name = some entry ∧
      entry.type = .composite name ∧ (composite.lineage = .custom ∨
        entry.category = .passthrough ∨ entry.category = .multiInheritance) := by
  obtain ⟨entry, registered⟩ :=
    Fields.mem_names_iff.mp (sound.composites name composite present).registered
  obtain ⟨earlier, later, lineage, -, -, made, table⟩ :=
    (sound.entries name entry registered).made.made
  rw [present, Option.map_some] at table
  obtain ⟨own, held, same⟩ := Option.map_eq_some_iff.mp table.symm
  obtain ⟨typed, category⟩ := made.declared held
  rw [Prod.mk.injEq] at same
  exact ⟨entry, registered, congrArg Resolved.type typed, same.1 ▸ category⟩

theorem Sound.fit {workspace : Workspace} (sound : Sound document workspace) :
    EntriesFit workspace.registry :=
  fun name entry present => (sound.entries name entry present).fits

/-! ## Advancing -/

/-- A composite type that has been declared, but not bound. -/
structure Unbound (composite : Composite) : Prop where
  properties : composite.properties = []
  catchAll : composite.catchAll = none
  special : composite.special = []

theorem Unbound.typesKnown {registry : Registry} {composite : Composite}
    (unbound : Unbound composite) : composite.TypesKnown registry where
  properties := by
    rw [unbound.properties]
    exact nofun
  catchAll := by
    rw [unbound.catchAll]
    exact nofun

/-- What resolving does to a workspace while the registration of some names is under way. -/
structure Advances (document : Document) (resolving : List String) (before after : Workspace) :
    Prop where
  sound : Sound document after
  known : before.known <+: after.known
  entries : Extends before.registry after.registry
  composites : ∀ name ∈ Fields.names before.registry.entries,
    Fields.get? after.registry.composites name = Fields.get? before.registry.composites name
  created : ∀ name, name ∉ Fields.names before.registry.entries →
    ∀ composite, Fields.get? after.registry.composites name = some composite → Unbound composite
  pending : ∀ name ∈ resolving, name ∈ Fields.names after.registry.entries →
    name ∈ Fields.names before.registry.entries
  adopted : ∀ name ∈ Fields.names after.known,
    name ∈ Fields.names before.known ∨ name ∈ Fields.names after.registry.entries

theorem Extends.names {before after : Registry} (extended : Extends before after) {name : String}
    (registered : name ∈ Fields.names before.entries) : name ∈ Fields.names after.entries := by
  obtain ⟨entry, present⟩ := Fields.mem_names_iff.mp registered
  exact Fields.mem_names_iff.mpr ⟨entry, extended name entry present⟩

theorem Extends.trans {first second third : Registry} (earlier : Extends first second)
    (later : Extends second third) : Extends first third :=
  fun name entry present => later name entry (earlier name entry present)

namespace Advances

variable {resolving : List String} {first second third : Workspace}

theorem refl (sound : Sound document first) : Advances document resolving first first where
  sound := sound
  known := List.prefix_refl _
  entries := fun _ _ => id
  composites := fun _ _ => rfl
  created := fun name absent composite present =>
    absurd (sound.composites name composite present).registered absent
  pending := fun _ _ => id
  adopted := fun _ => .inl

theorem trans (earlier : Advances document resolving first second)
    (later : Advances document resolving second third) :
    Advances document resolving first third where
  sound := later.sound
  known := earlier.known.trans later.known
  entries := earlier.entries.trans later.entries
  composites := fun name registered => by
    rw [later.composites name (earlier.entries.names registered),
      earlier.composites name registered]
  created := fun name absent composite present => by
    by_cases between : name ∈ Fields.names second.registry.entries
    · rw [later.composites name between] at present
      exact earlier.created name absent composite present
    · exact later.created name between composite present
  pending := fun name under registered =>
    earlier.pending name under (later.pending name under registered)
  adopted := fun name known => by
    cases later.adopted name known with
    | inl between => exact (earlier.adopted name between).imp_right later.entries.names
    | inr registered => exact .inr registered

/-- With fewer names under way there is less to keep. -/
theorem fewer {more : List String} (advances : Advances document more first second)
    (among : ∀ name ∈ resolving, name ∈ more) : Advances document resolving first second :=
  { advances with pending := fun name under => advances.pending name (among name under) }

theorem find {name : String} {held : Classified}
    (advances : Advances document resolving first second)
    (known : Fields.get? first.known name = some held) :
    Fields.get? second.known name = some held := by
  obtain ⟨more, grown⟩ := advances.known
  rw [← grown, Fields.get?_append, known, Option.some_or]

end Advances

/-! ## Single changes -/

theorem Sound.adopt {workspace : Workspace} (sound : Sound document workspace) {name : String}
    {added : Classified} (named : Named document name added.definition added.category) :
    Sound document (workspace.adopt name added) := by
  unfold Workspace.adopt
  split
  · exact sound
  · rename_i absent
    rw [Bool.not_eq_true, Fields.has_eq_false_iff] at absent
    constructor
    · exact sound.distinct.insert name added
    · intro other held found
      have inserted : Fields.get? (Fields.insert workspace.known name added) other = some held :=
        found
      rw [Fields.get?_insert] at inserted
      split at inserted
      · rename_i same
        cases inserted
        exact same ▸ named
      · exact sound.known other held inserted
    · intro other entry present
      have own := sound.entries other entry present
      obtain ⟨held, found, definition, category⟩ := own.origin
      refine { own with origin := ⟨held, ?_, definition, category⟩ }
      rw [Fields.get?_insert]
      have different : other ≠ name := by
        intro same
        rw [same, absent] at found
        cases found
      rw [if_neg different]
      exact found
    · exact sound.composites
    · exact sound.enumerations
    · exact sound.typesKnown
    · exact sound.tables

theorem adopt_known {workspace : Workspace} (name : String) (added : Classified) :
    workspace.known <+: (workspace.adopt name added).known ∧
      (workspace.adopt name added).registry = workspace.registry := by
  unfold Workspace.adopt
  split
  · exact ⟨List.prefix_refl _, rfl⟩
  · rename_i absent
    rw [Bool.not_eq_true, Fields.has_eq_false_iff, Fields.get?_eq_none_iff] at absent
    refine ⟨?_, rfl⟩
    rw [Fields.insert_of_absent absent]
    exact List.prefix_append _ _

theorem mem_names_adopt {workspace : Workspace} {name : String} {added : Classified}
    {other : String} : other ∈ Fields.names (workspace.adopt name added).known ↔
      other = name ∨ other ∈ Fields.names workspace.known := by
  unfold Workspace.adopt
  split
  · rename_i held
    constructor
    · exact .inr
    · rintro (rfl | known)
      · exact Fields.has_iff.mp held
      · exact known
  · exact Fields.mem_names_insert

/-- A schema is adopted in order to be registered. -/
theorem Advances.of_adopt {resolving : List String} {before after : Workspace} {name : String}
    {added : Classified} (advances : Advances document resolving (before.adopt name added) after)
    (registered : name ∈ Fields.names after.registry.entries) :
    Advances document resolving before after := by
  obtain ⟨known, registry⟩ := @adopt_known before name added
  constructor
  · exact advances.sound
  · exact known.trans advances.known
  · rw [← registry]
    exact advances.entries
  · rw [← registry]
    exact advances.composites
  · rw [← registry]
    exact advances.created
  · rw [← registry]
    exact advances.pending
  · intro other held
    cases advances.adopted other held with
    | inl adopted =>
      rcases mem_names_adopt.mp adopted with rfl | old
      · exact .inr registered
      · exact .inl old
    | inr entered => exact .inr entered

theorem Extends.of_insert {before after : Registry} {name : String} {entry : Entry}
    (fresh : name ∉ Fields.names before.entries)
    (entries : after.entries = Fields.insert before.entries name entry) : Extends before after := by
  intro other held present
  have different : other ≠ name := by
    rintro rfl
    exact fresh (Fields.mem_names_iff.mpr ⟨held, present⟩)
  rw [entries, Fields.get?_insert, if_neg different, present]

/-- What is described of registered names stays known. -/
theorem Extends.keeps {before after : Registry} (extended : Extends before after)
    (composites : ∀ name ∈ Fields.names before.entries,
      Fields.get? after.composites name = Fields.get? before.composites name)
    (enumerations : ∀ name ∈ Fields.names before.entries,
      Fields.get? after.enumerations name = Fields.get? before.enumerations name) :
    before.Keeps after where
  composites := by
    rintro name ⟨⟨entry, present, typed⟩, described⟩
    rw [← composites name (Fields.mem_names_iff.mpr ⟨entry, present⟩)] at described
    exact ⟨⟨entry, extended name entry present, typed⟩, described⟩
  enumerations := by
    rintro name ⟨⟨entry, present, typed⟩, described⟩
    rw [← enumerations name (Fields.mem_names_iff.mpr ⟨entry, present⟩)] at described
    exact ⟨⟨entry, extended name entry present, typed⟩, described⟩

/-- A name is registered with all that belongs to it, and nothing else changes. -/
structure Registers (document : Document) (before after : Workspace) (name : String)
    (entry : Entry) : Prop where
  fresh : name ∉ Fields.names before.registry.entries
  known : after.known = before.known
  entries : after.registry.entries = Fields.insert before.registry.entries name entry
  own : EntrySound document after name entry
  composites : ∀ other, other ≠ name →
    Fields.get? after.registry.composites other = Fields.get? before.registry.composites other
  created : ∀ composite, Fields.get? after.registry.composites name = some composite →
    composite.name = name ∧ DirectTable composite ∧ Unbound composite
  typed : entry.type.Known after.registry
  kept : ∀ other ∈ Fields.names before.registry.entries,
    Fields.get? after.registry.enumerations other = Fields.get? before.registry.enumerations other
  enumerations : ∀ other enumeration,
    Fields.get? after.registry.enumerations other = some enumeration →
      Fields.get? before.registry.enumerations other = some enumeration ∨
        other = name ∧ enumeration.name = name ∧ enumeration.WellFormed
  tables : before.registry.Distinct → after.registry.Distinct

namespace Registers

variable {before after : Workspace} {name : String} {entry : Entry}
  (registers : Registers document before after name entry)

include registers

theorem extends_registry : Extends before.registry after.registry :=
  .of_insert registers.fresh registers.entries

theorem entries_grow : before.registry.entries <+: after.registry.entries := by
  rw [registers.entries, Fields.insert_of_absent registers.fresh]
  exact List.prefix_append _ _

theorem keeps : before.registry.Keeps after.registry := by
  refine registers.extends_registry.keeps (fun other registered => ?_) registers.kept
  refine registers.composites other ?_
  rintro rfl
  exact registers.fresh registered

theorem sound (sound : Sound document before) : Sound document after where
  distinct := registers.known ▸ sound.distinct
  known := registers.known ▸ sound.known
  entries := by
    intro other held present
    rw [registers.entries, Fields.get?_insert] at present
    split at present
    · rename_i same
      cases present
      exact same ▸ registers.own
    · rename_i different
      have old := sound.entries other held present
      have earlier : other ∈ Fields.names before.registry.entries :=
        Fields.mem_names_iff.mpr ⟨held, present⟩
      have made := old.made.mono registers.entries_grow
        (by rw [registers.composites other different]) (registers.kept other earlier)
      refine { old with
        made := made
        origin := registers.known ▸ old.origin }
  composites := by
    intro other composite present
    by_cases same : other = name
    · subst same
      obtain ⟨named, table, unbound⟩ := registers.created composite present
      refine ⟨table, named, fun _ => unbound.special, ?_⟩
      rw [registers.entries]
      exact Fields.mem_names_insert.mpr (.inl rfl)
    · rw [registers.composites other same] at present
      have declared := sound.composites other composite present
      exact { declared with registered := registers.extends_registry.names declared.registered }
  enumerations := by
    intro other enumeration present
    cases registers.enumerations other enumeration present with
    | inl old =>
      obtain ⟨named, wellFormed, earlier⟩ := sound.enumerations other enumeration old
      exact ⟨named, wellFormed, registers.extends_registry.names earlier⟩
    | inr new =>
      obtain ⟨rfl, named, wellFormed⟩ := new
      refine ⟨named, wellFormed, ?_⟩
      rw [registers.entries]
      exact Fields.mem_names_insert.mpr (.inl rfl)
  typesKnown := {
    entries := by
      intro other held present
      rw [registers.entries, Fields.get?_insert] at present
      split at present
      · cases present
        exact registers.typed
      · exact (sound.typesKnown.entries other held present).mono registers.keeps
    tables := by
      intro other composite present
      by_cases same : other = name
      · exact (registers.created composite (same ▸ present)).2.2.typesKnown
      · rw [registers.composites other same] at present
        exact (sound.typesKnown.tables other composite present).mono registers.keeps }
  tables := registers.tables sound.tables

theorem advances {resolving : List String} (sound : Sound document before)
    (free : name ∉ resolving) : Advances document resolving before after where
  sound := registers.sound sound
  known := registers.known ▸ List.prefix_refl _
  entries := registers.extends_registry
  composites := by
    intro other registered
    refine registers.composites other ?_
    rintro rfl
    exact registers.fresh registered
  created := by
    intro other absent composite present
    by_cases same : other = name
    · exact (registers.created composite (same ▸ present)).2.2
    · rw [registers.composites other same] at present
      exact absurd (sound.composites other composite present).registered absent
  pending := by
    intro other under registered
    rw [registers.entries, Fields.mem_names_insert] at registered
    cases registered with
    | inl same => exact absurd (same ▸ under) free
    | inr old => exact old
  adopted := fun _ held => .inl (registers.known ▸ held)

end Registers

section

variable {resolving : List String} {workspace : Workspace} {name : String} {held : Classified}
  (sound : Sound document workspace) (fresh : name ∉ Fields.names workspace.registry.entries)
  (free : name ∉ resolving) (known : Fields.get? workspace.known name = some held)

include sound fresh

theorem Sound.no_composite : Fields.get? workspace.registry.composites name = none := by
  cases present : Fields.get? workspace.registry.composites name with
  | none => rfl
  | some composite => exact absurd (sound.composites name composite present).registered fresh

theorem Sound.no_enumeration : Fields.get? workspace.registry.enumerations name = none := by
  cases present : Fields.get? workspace.registry.enumerations name with
  | none => rfl
  | some enumeration => exact absurd (sound.enumerations name enumeration present).2.2 fresh

/-- What is entered last, and is no enumeration, has been made of all that was there before it. -/
theorem MadeIn.of_entered {after : Registry} {entry : Entry} {lineage : Option Lineage}
    (entries : after.entries = Fields.insert workspace.registry.entries name entry)
    (enumerations : after.enumerations = workspace.registry.enumerations)
    (named : entry.name = name) (other : entry.category ≠ .enumeration)
    (made : Made document workspace.registry name entry.definition entry.category
      ⟨entry.type, entry.caster⟩ lineage)
    (table : (Fields.get? after.composites name).map (fun composite =>
      (composite.lineage, composite.description)) =
        lineage.map fun lineage => (lineage, entry.definition.description?)) :
    MadeIn document after name entry where
  named := named
  enumerated := by
    intro enumeration
    rw [enumerations, sound.no_enumeration fresh]
    exact ⟨nofun, fun impossible => absurd impossible.1 other⟩
  made := ⟨workspace.registry, [], lineage, entries.trans (Fields.insert_of_absent fresh _), fresh,
    made, table⟩

include free known

theorem Advances.enter {resolved : Resolved} (fits : Fits True resolved.type resolved.caster)
    (typed : resolved.type.Known workspace.registry)
    (target : ∀ target, resolved.type ≠ .composite target)
    (inPlace : isAnonymous held.category = false)
    (made : Made document workspace.registry name held.definition held.category resolved none) :
    Advances document resolving workspace (workspace.enter name held resolved) := by
  have absent := sound.no_composite fresh
  have other : held.category ≠ .enumeration := by
    intro same
    rw [same] at inPlace
    cases inPlace
  have madeIn : MadeIn document (workspace.enter name held resolved).registry name
      ⟨name, resolved.type, resolved.caster, held.definition, held.category⟩ :=
    .of_entered sound fresh rfl rfl rfl other made (congrArg (Option.map _) absent)
  have registers : Registers document workspace (workspace.enter name held resolved) name
      ⟨name, resolved.type, resolved.caster, held.definition, held.category⟩ := {
    fresh := fresh
    known := rfl
    entries := rfl
    own := {
      made := madeIn
      fits := fits
      composite := fun other typed => absurd typed (target other)
      origin := ⟨held, known, rfl, rfl⟩ }
    composites := fun _ _ => rfl
    created := by
      intro composite present
      have same : Fields.get? workspace.registry.composites name = some composite := present
      rw [absent] at same
      cases same
    typed := typed.mono
      (Extends.keeps (.of_insert fresh rfl) (fun _ _ => rfl) fun _ _ => rfl)
    kept := fun _ _ => rfl
    enumerations := fun _ _ => .inl
    tables := fun distinct => distinct.register _ }
  exact registers.advances sound free

theorem Advances.enterComposite {lineage : Lineage}
    (made : Made document workspace.registry name held.definition held.category
      ⟨.composite name, .composite name⟩ (some lineage)) :
    Advances document resolving workspace (workspace.enterComposite name held lineage) := by
  have present : Fields.get? (workspace.enterComposite name held lineage).registry.composites name =
      some (.empty name lineage held.definition.description?) := by
    simp [Workspace.enterComposite, Workspace.enter, Registry.register, Registry.setComposite,
      Composite.empty]
  have entered : Fields.get? (workspace.enterComposite name held lineage).registry.entries name =
      some ⟨name, .composite name, .composite name, held.definition, held.category⟩ :=
    (Fields.get?_insert ..).trans (if_pos rfl)
  have other : held.category ≠ .enumeration := by
    intro same
    rw [same] at made
    cases made
  have madeIn : MadeIn document (workspace.enterComposite name held lineage).registry name
      ⟨name, .composite name, .composite name, held.definition, held.category⟩ :=
    .of_entered sound fresh rfl rfl rfl other made (congrArg (Option.map _) present)
  have registers : Registers document workspace (workspace.enterComposite name held lineage) name
      ⟨name, .composite name, .composite name, held.definition, held.category⟩ := {
    fresh := fresh
    known := rfl
    entries := rfl
    own := {
      made := madeIn
      fits := .composite name
      composite := fun other typed => by
        cases typed
        rfl
      origin := ⟨held, known, rfl, rfl⟩ }
    composites := by
      intro other different
      simp [Workspace.enterComposite, Workspace.enter, Registry.register, Registry.setComposite,
        Composite.empty, different]
    created := by
      intro composite found
      rw [present] at found
      cases found
      exact ⟨rfl, .empty .., rfl, rfl, rfl⟩
    typed := .composite ⟨⟨_, entered, rfl⟩, _, present⟩
    kept := fun _ _ => rfl
    enumerations := fun _ _ => .inl
    tables := fun distinct => (distinct.setComposite _).register _ }
  exact registers.advances sound free

theorem Advances.enterEnumeration {enumeration : Enumeration}
    (read : Enumeration.ofDefinition name held.definition = .ok enumeration)
    (category : held.category = .enumeration) :
    Advances document resolving workspace (workspace.enterEnumeration name held enumeration) := by
  obtain ⟨named, wellFormed⟩ := Enumeration.ofDefinition_wellFormed read
  have absent := sound.no_composite fresh
  have entered : Fields.get?
      (workspace.enterEnumeration name held enumeration).registry.entries name =
        some ⟨name, .enumeration name, .enumeration name, held.definition, held.category⟩ :=
    (Fields.get?_insert ..).trans (if_pos rfl)
  have present : Fields.get?
      (workspace.enterEnumeration name held enumeration).registry.enumerations name =
        some enumeration := by
    rw [← named]
    exact (Fields.get?_insert ..).trans (if_pos rfl)
  have madeIn : MadeIn document (workspace.enterEnumeration name held enumeration).registry name
      ⟨name, .enumeration name, .enumeration name, held.definition, held.category⟩ := {
    named := rfl
    enumerated := by
      intro other
      rw [present, Option.some.injEq]
      show enumeration = other ↔ held.category = .enumeration ∧
        Enumeration.ofDefinition name held.definition = .ok other
      rw [read, Except.ok.injEq]
      exact ⟨fun same => ⟨category, same⟩, And.right⟩
    made := ⟨workspace.registry, [], none, Fields.insert_of_absent fresh _, fresh,
      category ▸ .enumeration read, congrArg (Option.map _) absent⟩ }
  have registers : Registers document workspace
      (workspace.enterEnumeration name held enumeration) name
      ⟨name, .enumeration name, .enumeration name, held.definition, held.category⟩ := {
    fresh := fresh
    known := rfl
    entries := rfl
    own := {
      made := madeIn
      fits := .enumeration name
      composite := fun other typed => by cases typed
      origin := ⟨held, known, rfl, rfl⟩ }
    composites := fun _ _ => rfl
    created := by
      intro composite present
      have same : Fields.get? workspace.registry.composites name = some composite := present
      rw [absent] at same
      cases same
    typed := .enumeration ⟨⟨_, entered, rfl⟩, _, present⟩
    kept := by
      intro other registered
      have different : other ≠ enumeration.name := by
        rintro same
        exact fresh (named ▸ same ▸ registered)
      exact (Fields.get?_insert ..).trans (if_neg different)
    enumerations := by
      intro other found present
      have inserted : Fields.get? (Fields.insert workspace.registry.enumerations enumeration.name
        enumeration) other = some found := present
      rw [Fields.get?_insert] at inserted
      split at inserted
      · rename_i same
        cases inserted
        exact .inr ⟨same.trans named, named, wellFormed⟩
      · exact .inl inserted
    tables := fun distinct => (distinct.setEnumeration _).register _ }
  exact registers.advances sound free

end

end TypedSchema.Compile
