import TypedSchema.Proofs.Compile.References

/-!
What is registered does not depend on when it was. Where no two schemas take the same name, the
entries that two registries of a document have in common are the same, and so are whole registries
once all of their types are complete.
-/

namespace TypedSchema

attribute [ext] Entry Property Composite

/-- Two registries with the same in their tables, in whatever order. -/
structure Registry.SameContent (first second : Registry) : Prop where
  entries : first.entries.Perm second.entries
  composites : first.composites.Perm second.composites
  enumerations : first.enumerations.Perm second.enumerations
  root : first.root = second.root

namespace Compile

/-- Names that are in both registries have the same type and caster in both. -/
def Agree (first second : Registry) : Prop :=
  ∀ name entry other, Fields.get? first.entries name = some entry →
    Fields.get? second.entries name = some other →
      other.type = entry.type ∧ other.caster = entry.caster

/-! ## What schemas denote -/

section

variable {ownNodes : Prop} {patterns : Patterns} {first second : Registry}

theorem Agree.resolved (agree : Agree first second) {name : String} {entry other : Entry}
    (present : Fields.get? first.entries name = some entry)
    (also : Fields.get? second.entries name = some other) :
    (⟨other.type, other.caster⟩ : Resolved) = ⟨entry.type, entry.caster⟩ := by
  obtain ⟨type, caster⟩ := agree name entry other present also
  rw [type, caster]

theorem TargetDenotes.unique (agree : Agree first second) {pair : String × String}
    {branch other : (String × Branch Caster) × TypeExpr}
    (denotes : TargetDenotes first pair branch) (also : TargetDenotes second pair other) :
    other = branch := by
  obtain ⟨entry, present, rfl⟩ := denotes
  obtain ⟨held, registered, rfl⟩ := also
  obtain ⟨type, caster⟩ := agree _ _ _ present registered
  rw [type, caster]

mutual
/-- A schema denotes the same in registries that agree. -/
theorem Denotes.unique (agree : Agree first second) {definition : Definition} {hint : String}
    {resolved other : Resolved} :
    Denotes ownNodes patterns first definition hint resolved →
      Denotes ownNodes patterns second definition hint other → other = resolved
  | .anything _ unconstrained, also => by
    cases also with
    | anything => rfl
    | shaped constrained =>
      rw [unconstrained] at constrained
      cases constrained
  | .shaped constrained shape inner, also => by
    cases also with
    | anything _ unconstrained =>
      rw [constrained] at unconstrained
      cases unconstrained
    | shaped _ own inside =>
      rw [shape] at own
      cases own
      exact Shaped.unique agree inner inside

theorem Shaped.unique (agree : Agree first second) {category : Category}
    {definition : Definition} {hint : String} {resolved other : Resolved} :
    Shaped ownNodes patterns first category definition hint resolved →
      Shaped ownNodes patterns second category definition hint other → other = resolved
  | .reference _ referred present, also => by
    cases also with
    | reference _ found registered =>
      rw [referred] at found
      cases found
      exact agree.resolved present registered
    | anonymous named => cases named
  | .scalar found, also => by
    cases also with
    | scalar own =>
      rw [found] at own
      cases own
      rfl
    | anonymous named => cases named
  | .listOfAnything _ items, also => by
    cases also with
    | listOfAnything => rfl
    | list own constrained =>
      rw [own] at items
      rcases items with none | anything
      · cases none
      · exact absurd (Option.some.inj anything) constrained
    | anonymous named => cases named
  | .list items constrained node inner, also => by
    cases also with
    | listOfAnything _ others =>
      rw [items] at others
      rcases others with none | anything
      · cases none
      · exact absurd (Option.some.inj anything) constrained
    | list own _ read inside =>
      rw [items] at own
      cases own
      rw [node] at read
      cases read
      rw [Denotes.unique agree inner inside]
    | anonymous named => cases named
  | .union inner, also => by
    cases also with
    | union inside => rw [DenotesOptions.unique agree inner inside]
    | anonymous named => cases named
  | .conditional allOf inner, also => by
    cases also with
    | conditional own inside =>
      rw [allOf] at own
      cases own
      rw [DenotesConditions.unique agree inner inside]
    | keyed _ absent =>
      rw [allOf] at absent
      cases absent
    | anonymous named => cases named
  | .keyed _ absent found targets, also => by
    cases also with
    | conditional allOf =>
      rw [allOf] at absent
      cases absent
    | keyed _ _ read others =>
      rw [found] at read
      cases read
      rw [Lists.unique_of_related targets others fun _ _ _ _ => TargetDenotes.unique agree]
    | anonymous named => cases named
  | .anonymous named present _, also => by
    cases also with
    | anonymous _ registered => exact agree.resolved present registered
    | _ => cases named

theorem DenotesOptions.unique (agree : Agree first second) {hint : String}
    {options : List (Json × Nat)} {members others : List Resolved} :
    DenotesOptions ownNodes patterns first hint options members →
      DenotesOptions ownNodes patterns second hint options others → others = members
  | .nil _, also => by
    cases also
    rfl
  | .cons node inner later, also => by
    cases also with
    | cons read inside rest =>
      rw [node] at read
      cases read
      rw [Denotes.unique agree inner inside, DenotesOptions.unique agree later rest]

theorem DenotesConditions.unique (agree : Agree first second) {hint : String}
    {parts : List (Json × Nat)} {conditions others : List (Condition Caster × TypeExpr)} :
    DenotesConditions ownNodes patterns first hint parts conditions →
      DenotesConditions ownNodes patterns second hint parts others → others = conditions
  | .nil _, also => by
    cases also
    rfl
  | .cons asked node inner later, also => by
    cases also with
    | cons own read inside rest =>
      rw [asked] at own
      cases own
      rw [node] at read
      cases read
      rw [Denotes.unique agree inner inside, DenotesConditions.unique agree later rest]
end

/-! ## What is made -/

theorem ParentMade.unique (agree : Agree first second) {name : String} {part : Json × Nat}
    {parent other : String} (made : ParentMade first name part parent)
    (also : ParentMade second name part other) : other = parent := by
  cases made with
  | reference node shape referred present typed =>
    obtain ⟨_, entry, found, registered, same⟩ := also.of_passthrough node shape
    rw [referred] at found
    cases found
    have equal := (agree _ _ _ present registered).1
    rw [typed, same] at equal
    exact TypeExpr.composite.inj equal
  | inPlace node shape anonymous =>
    exact (also.of_inPlace node shape (ne_passthrough_of_anonymous anonymous)).2.2.1

/-- The same is made of a definition by pasts that agree. -/
theorem Made.unique {document : Document} (agree : Agree first second) {name : String}
    {definition : Definition} {category : Category} {resolved other : Resolved}
    {lineage another : Option Lineage}
    (made : Made document first name definition category resolved lineage)
    (also : Made document second name definition category other another) :
    other = resolved ∧ another = lineage := by
  cases made with
  | custom =>
    cases also with
    | custom => exact ⟨rfl, rfl⟩
    | shaped inPlace => cases inPlace
  | enumeration =>
    cases also with
    | enumeration => exact ⟨rfl, rfl⟩
    | shaped inPlace => cases inPlace
  | heir referred present typed =>
    cases also with
    | heir found registered same =>
      rw [referred] at found
      cases found
      have equal := (agree _ _ _ present registered).1
      rw [typed, same] at equal
      cases equal
      exact ⟨rfl, rfl⟩
    | synonym found registered different =>
      rw [referred] at found
      cases found
      exact absurd ((agree _ _ _ present registered).1.trans typed) (different _)
    | shaped _ reference => exact absurd rfl reference
  | synonym referred present different =>
    cases also with
    | heir found registered same =>
      rw [referred] at found
      cases found
      exact absurd ((agree _ _ _ present registered).1.symm.trans same) (different _)
    | synonym found registered =>
      rw [referred] at found
      cases found
      exact ⟨agree.resolved present registered, rfl⟩
    | shaped _ reference => exact absurd rfl reference
  | combined each =>
    cases also with
    | combined others =>
      rw [Lists.unique_of_related each others fun _ _ _ _ => ParentMade.unique agree]
      exact ⟨rfl, rfl⟩
    | shaped inPlace => cases inPlace
  | shaped inPlace reference inner =>
    cases also with
    | custom => cases inPlace
    | enumeration => cases inPlace
    | heir => exact absurd rfl reference
    | synonym => exact absurd rfl reference
    | combined => cases inPlace
    | shaped _ _ inside => exact ⟨Shaped.unique agree inner inside, rfl⟩

end

/-! ## Workspaces -/

section

variable {document : Document} {one two : Workspace}

theorem Sound.named_of_registered {workspace : Workspace} (sound : Sound document workspace)
    {name : String} {entry : Entry}
    (present : Fields.get? workspace.registry.entries name = some entry) :
    Named document name entry.definition entry.category := by
  obtain ⟨held, known, definition, category⟩ := (sound.entries name entry present).origin
  rw [definition, category]
  exact sound.known name held known

variable (sound : Sound document one) (also : Sound document two) (apart : NamesApart document)

include sound also apart

/-- Entries are the same, and the composite types declared with them have the same lineage and the
same description. -/
theorem Sound.same_entry {name : String} {entry other : Entry}
    (present : Fields.get? one.registry.entries name = some entry)
    (registered : Fields.get? two.registry.entries name = some other) :
    other = entry ∧
      (Fields.get? two.registry.composites name).map (fun composite =>
        (composite.lineage, composite.description)) =
          (Fields.get? one.registry.composites name).map fun composite =>
            (composite.lineage, composite.description) := by
  -- An entry was made of what had been registered before it, where both registries agree already.
  induction place : position one.registry name using Nat.strongRecOn
    generalizing name entry other with
  | _ place ih =>
    subst place
    obtain ⟨held, found, definition, category⟩ :=
      also.made_of_registered apart (sound.named_of_registered present)
        (Fields.mem_names_iff.mpr ⟨other, registered⟩)
    rw [registered] at found
    cases found
    have own := (sound.entries name entry present).made
    have theirs := (also.entries name other registered).made
    obtain ⟨past, lineage, order, made, table⟩ := own.history
    obtain ⟨older, another, olderOrder, madeThere, tableThere⟩ := theirs.history
    have agree : Agree past older := by
      intro target first second held holds
      have before := order.before target (Fields.mem_names_iff.mpr ⟨first, held⟩)
      obtain ⟨rfl, -⟩ := ih _ before (order.entries _ _ held) (olderOrder.entries _ _ holds) rfl
      exact ⟨rfl, rfl⟩
    rw [definition, category] at madeThere
    obtain ⟨resolved, rfl⟩ := made.unique agree madeThere
    rw [Resolved.mk.injEq] at resolved
    constructor
    · have name := theirs.named.trans own.named.symm
      exact Entry.ext name resolved.1 resolved.2 definition category
    · rw [table, tableThere, definition]

theorem Sound.agree : Agree one.registry two.registry := by
  intro name entry other present registered
  obtain ⟨rfl, -⟩ := sound.same_entry also apart present registered
  exact ⟨rfl, rfl⟩

end

/-! ## Object types -/

section

variable {document : Document} {ownNodes : Prop} {first second : Registry}
  (agree : Agree first second) {owner : String}

include agree

theorem BoundProperty.unique {required : Bool} {entry : String × Json} {property other : Property}
    (bound : BoundProperty ownNodes document first owner required entry property)
    (also : BoundProperty ownNodes document second owner required entry other) :
    other = property := by
  obtain ⟨definition, resolved, node, denotes, caster, type⟩ := bound.typed
  obtain ⟨own, another, read, inside, casterThere, typeThere⟩ := also.typed
  rw [node] at read
  cases read
  obtain rfl := denotes.unique agree inside
  have name := also.name.trans bound.name.symm
  have external := also.external.trans bound.external.symm
  have default := also.default.trans bound.default.symm
  rw [← caster] at casterThere
  rw [← type] at typeThere
  exact Property.ext name external casterThere typeThere default

theorem BoundCatchAll.unique {definition : Definition} {catchAll other : Option CatchAll}
    (bound : BoundCatchAll document first owner definition catchAll)
    (also : BoundCatchAll document second owner definition other) : other = catchAll := by
  -- A schema is read from an object, so it is none of the Boolean values.
  cases bound with
  | refused declared =>
    cases also with
    | refused => rfl
    | anything own =>
      rw [own] at declared
      simp at declared
    | schema own node =>
      rw [own] at declared
      rcases declared with none | same
      · cases none
      · cases same
        cases node
  | anything declared =>
    cases also with
    | refused own =>
      rw [declared] at own
      simp at own
    | anything => rfl
    | schema own node =>
      rw [own] at declared
      cases declared
      cases node
  | schema declared node denotes =>
    cases also with
    | refused own =>
      rw [declared] at own
      rcases own with none | same
      · cases none
      · cases same
        cases node
    | anything own =>
      rw [declared] at own
      cases own
      cases node
    | schema own read inside =>
      rw [declared] at own
      cases own
      rw [node] at read
      cases read
      rw [denotes.unique agree inside]

theorem BoundTo.unique {definition : Definition} {composite other : Composite}
    (bound : BoundTo document first owner definition composite)
    (also : BoundTo document second owner definition other) :
    other.properties = composite.properties ∧ other.catchAll = composite.catchAll ∧
      other.special = composite.special := by
  obtain ⟨properties, each, held⟩ := bound.properties
  obtain ⟨others, every, holds⟩ := also.properties
  have same := Lists.unique_of_related each every fun _ _ _ _ => BoundProperty.unique agree
  exact ⟨by rw [held, holds, same], bound.catchAll.unique agree also.catchAll,
    also.special.trans bound.special.symm⟩

end

/-! ## Inheritance -/

theorem ownSignature_eq {composite other : Composite} (name : other.name = composite.name)
    (properties : other.properties = composite.properties)
    (catchAll : other.catchAll = composite.catchAll) :
    other.ownSignature = composite.ownSignature := by
  rw [Composite.ownSignature, Composite.ownSignature, name, properties, catchAll]

/-- Composite types are given by the object types among them and by who inherits from whom. -/
theorem Inherits.unique {first second : String → Option Composite}
    (all : ∀ name other, second name = some other → Inherits second other)
    (alike : ∀ name composite other, first name = some composite → second name = some other →
      other.name = composite.name ∧ other.lineage = composite.lineage ∧
        other.description = composite.description)
    (objects : ∀ name composite other, first name = some composite → second name = some other →
      composite.lineage = .custom → other = composite)
    {composite : Composite} (inherits : Inherits first composite) {name : String}
    {other : Composite} (present : first name = some composite)
    (also : second name = some other) : other = composite := by
  induction inherits generalizing name other with
  | custom lineage => exact objects _ _ _ present also lineage
  | @passthrough composite above parent lineage found _ properties catchAll initializer special ih =>
    obtain ⟨sameName, same, description⟩ := alike _ _ _ present also
    cases all _ _ also with
    | custom own =>
      rw [same, lineage] at own
      cases own
    | passthrough own foundThere _ propertiesThere catchAllThere initializerThere specialThere =>
      rw [same, lineage] at own
      cases own
      obtain rfl := ih found foundThere
      rw [sameName, ← initializer] at initializerThere
      exact Composite.ext sameName same description (propertiesThere.trans properties.symm)
        (catchAllThere.trans catchAll.symm) initializerThere (specialThere.trans special.symm)
    | combined own =>
      rw [same, lineage] at own
      cases own
  | @combined composite parents aboves lineage found _ properties catchAll initializer special ih =>
    obtain ⟨sameName, same, description⟩ := alike _ _ _ present also
    cases all _ _ also with
    | custom own =>
      rw [same, lineage] at own
      cases own
    | passthrough own =>
      rw [same, lineage] at own
      cases own
    | combined own foundThere _ propertiesThere catchAllThere initializerThere specialThere =>
      rw [same, lineage] at own
      cases own
      obtain rfl := Lists.unique_of_related found foundThere
        fun above member parent another held holds => ih above member held holds
      rw [← properties] at propertiesThere
      rw [← catchAll] at catchAllThere
      rw [ownSignature_eq sameName propertiesThere catchAllThere, ← initializer] at initializerThere
      exact Composite.ext sameName same description propertiesThere catchAllThere initializerThere
        (specialThere.trans special.symm)

/-! ## Registries -/

theorem Made.custom_of_lineage {document : Document} {past : Registry} {name : String}
    {definition : Definition} {category : Category} {resolved : Resolved}
    (made : Made document past name definition category resolved (some .custom)) :
    category = .custom := by
  cases made
  rfl

namespace Compiled

variable {document : Document} {one : Workspace} {first : Registry}
  (compiled : Compiled document one first)

include compiled

/-- A composite type without parents was bound to the schema that takes its name. -/
theorem bound_of_lineage {name : String} {composite : Composite}
    (present : Fields.get? one.registry.composites name = some composite)
    (custom : composite.lineage = .custom) :
    ∃ definition, Named document name definition .custom ∧
      BoundTo document one.registry name definition composite := by
  obtain ⟨entry, registered⟩ :=
    Fields.mem_names_iff.mp (compiled.sound.composites name composite present).registered
  have entrySound := compiled.sound.entries name entry registered
  obtain ⟨past, lineage, -, made, table⟩ := entrySound.made.history
  obtain ⟨held, known, -, category⟩ := entrySound.origin
  rw [present, Option.map_some] at table
  obtain ⟨own, rfl, equal⟩ := Option.map_eq_some_iff.mp table.symm
  rw [Prod.mk.injEq] at equal
  obtain rfl := equal.1.trans custom
  have object := category.symm.trans made.custom_of_lineage
  obtain ⟨other, bound, otherKnown, found, -, boundTo⟩ :=
    compiled.bound name (object ▸ mem_group known)
  rw [known] at otherKnown
  cases otherKnown
  rw [present] at found
  cases found
  exact ⟨held.definition, object ▸ compiled.sound.known name held known, boundTo⟩

variable (apart : NamesApart document)

include apart

/-- Nothing but what a compiled document registers is ever registered for it. -/
theorem extends_sound {earlier : Workspace} (sound : Sound document earlier) :
    Extends earlier.registry one.registry := by
  intro name entry present
  have named := sound.named_of_registered present
  obtain ⟨held, found⟩ := Fields.mem_names_iff.mp (compiled.registered apart named)
  obtain ⟨rfl, -⟩ := sound.same_entry compiled.sound apart present found
  exact found

variable {two : Workspace} {second : Registry} (also : Compiled document two second)

include also

theorem same_table {name : String} {composite : Composite}
    (present : Fields.get? one.registry.composites name = some composite) :
    ∃ other, Fields.get? two.registry.composites name = some other ∧
      other.lineage = composite.lineage ∧ other.description = composite.description := by
  obtain ⟨entry, registered⟩ :=
    Fields.mem_names_iff.mp (compiled.sound.composites name composite present).registered
  have there := also.extends_sound apart compiled.sound name entry registered
  obtain ⟨-, table⟩ := compiled.sound.same_entry also.sound apart registered there
  rw [present, Option.map_some] at table
  obtain ⟨other, found, same⟩ := Option.map_eq_some_iff.mp table
  rw [Prod.mk.injEq] at same
  exact ⟨other, found, same⟩

section

variable {name : String} {composite other : Composite}
  (present : Fields.get? first.composites name = some composite)
  (registered : Fields.get? second.composites name = some other)

include present registered

theorem alike : other.name = composite.name ∧ other.lineage = composite.lineage ∧
    other.description = composite.description := by
  obtain ⟨named, -, old, started, lineage, description, -⟩ :=
    compiled.completed.composites name composite present
  obtain ⟨also_named, -, older, startedThere, lineageThere, descriptionThere, -⟩ :=
    also.completed.composites name other registered
  obtain ⟨table, found, sameLineage, sameDescription⟩ := compiled.same_table apart also started
  rw [startedThere] at found
  cases found
  exact ⟨also_named.trans named.symm, lineageThere.trans (sameLineage.trans lineage.symm),
    descriptionThere.trans (sameDescription.trans description.symm)⟩

/-- Object types are what their schemas make them. -/
theorem same_object (custom : composite.lineage = .custom) : other = composite := by
  obtain ⟨name_eq, lineage_eq, description_eq⟩ :=
    compiled.alike apart also present registered
  obtain ⟨-, -, old, started, lineage, -, kept⟩ :=
    compiled.completed.composites name composite present
  obtain ⟨-, -, older, startedThere, lineageThere, -, keptThere⟩ :=
    also.completed.composites name other registered
  -- Types without parents are left alone when the others are completed.
  obtain rfl := kept (lineage.symm.trans custom)
  obtain rfl := keptThere (lineageThere.symm.trans (lineage_eq.trans custom))
  obtain ⟨definition, named, bound⟩ := compiled.bound_of_lineage started custom
  obtain ⟨another, namedThere, boundThere⟩ :=
    also.bound_of_lineage startedThere (lineage_eq.trans custom)
  have sameDefinition := apart _ _ _ _ _ named namedThere
  subst sameDefinition
  have agree := compiled.sound.agree also.sound apart
  obtain ⟨properties, catchAll, special⟩ := bound.unique agree boundThere
  have direct := (compiled.sound.composites _ _ started).direct
  have directThere := (also.sound.composites _ _ startedThere).direct
  rw [ownSignature_eq name_eq properties catchAll, ← direct] at directThere
  exact Composite.ext name_eq lineage_eq description_eq properties catchAll directThere special

end

theorem same_composite {name : String} {composite : Composite}
    (present : Fields.get? first.composites name = some composite) :
    Fields.get? second.composites name = some composite := by
  obtain ⟨-, -, old, started, -⟩ := compiled.completed.composites name composite present
  obtain ⟨older, found, -⟩ := compiled.same_table apart also started
  obtain ⟨other, registered⟩ := Fields.mem_names_iff.mp
    (also.completed.names name (Fields.mem_names_iff.mpr ⟨older, found⟩))
  have same := (compiled.inherits present).unique (fun _ _ => also.inherits)
    (fun _ _ _ => compiled.alike apart also) (fun _ _ _ => compiled.same_object apart also)
    present registered
  rw [registered, same]

theorem same_enumeration {name : String} {enumeration : Enumeration}
    (present : Fields.get? first.enumerations name = some enumeration) :
    Fields.get? second.enumerations name = some enumeration := by
  rw [compiled.completed.enumerations] at present
  rw [also.completed.enumerations]
  obtain ⟨-, -, listed⟩ := compiled.sound.enumerations name enumeration present
  obtain ⟨entry, registered⟩ := Fields.mem_names_iff.mp listed
  have there := also.extends_sound apart compiled.sound name entry registered
  have read := ((compiled.sound.entries name entry registered).made.enumerated enumeration).mp
    present
  exact ((also.sound.entries name entry there).made.enumerated enumeration).mpr read

/-- Two registries of one document differ in their order only. -/
theorem sameContent : first.SameContent second := by
  have tables := compiled.completed.tables compiled.sound.tables
  have tablesThere := also.completed.tables also.sound.tables
  constructor
  case entries =>
    refine Fields.perm_of_get? tables.entries tablesThere.entries fun name => Option.ext ?_
    rw [compiled.completed.entries, also.completed.entries]
    exact fun entry => ⟨also.extends_sound apart compiled.sound name entry,
      compiled.extends_sound apart also.sound name entry⟩
  case composites =>
    refine Fields.perm_of_get? tables.composites tablesThere.composites fun name => Option.ext ?_
    exact fun composite => ⟨compiled.same_composite apart also, also.same_composite apart compiled⟩
  case enumerations =>
    refine Fields.perm_of_get? tables.enumerations tablesThere.enumerations
      fun name => Option.ext ?_
    exact fun enumeration =>
      ⟨compiled.same_enumeration apart also, also.same_enumeration apart compiled⟩
  case root => exact compiled.root.trans also.root.symm

end Compiled

end Compile

end TypedSchema
