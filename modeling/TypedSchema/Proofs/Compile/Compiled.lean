import TypedSchema.Proofs.Compile.Inheriting
import TypedSchema.Proofs.Registry.Reach

/-!
Compiled documents. The registry of a document comes from a workspace that was filled and whose
types were completed, and it is well-formed.
-/

namespace TypedSchema.Compile

/-- The workspace that a registry was made from. -/
structure Compiled (document : Document) (workspace : Workspace) (registry : Registry) : Prop where
  sound : Sound document workspace
  listed : ∀ name ∈ Fields.names document.definitions,
    name ∈ Fields.names workspace.registry.entries
  bound : ∀ name ∈ workspace.group .custom, BoundIn document workspace name
  completed : Completed (workspace.group .passthrough ++ workspace.group .multiInheritance)
    workspace.registry registry
  root : registry.root = document.root

/-- A document compiles if its definitions can be classified, the workspace be filled from them and
its types be completed. -/
theorem compile_eq_ok {document : Document} {registry : Registry} :
    document.compile = .ok registry ↔ ∃ known workspace complete,
      classify document = .ok known ∧ (fill document).run { known } = .ok ((), workspace) ∧
        completeAll (workspace.group .passthrough ++ workspace.group .multiInheritance)
          workspace.registry = .ok complete ∧ registry = { complete with root := document.root } := by
  simp only [Document.compile, Outcomes.bind_ok]
  constructor
  · rintro ⟨known, classified, ⟨⟨⟩, workspace⟩, filled, complete, completed, ⟨⟩⟩
    exact ⟨known, workspace, complete, classified, filled, completed, rfl⟩
  · rintro ⟨known, workspace, complete, classified, filled, completed, rfl⟩
    exact ⟨known, classified, ⟨(), workspace⟩, filled, complete, completed, rfl⟩

/-- What is filled from the classified definitions and then completed. -/
theorem Compiled.of_filled {document : Document} {known : Fields Classified}
    (start : Sound document { known })
    (names : ∀ name ∈ Fields.names document.definitions, name ∈ Fields.names known)
    {result : Unit} {workspace : Workspace}
    (filled : (fill document).run { known } = .ok (result, workspace)) {complete : Registry}
    (completed : completeAll (workspace.group .passthrough ++ workspace.group .multiInheritance)
      workspace.registry = .ok complete) :
    Compiled document workspace { complete with root := document.root } := by
  obtain ⟨sound, -, registered, bound⟩ := fill_ok start rfl filled
  have last := completeAll_ok sound.starting completed
  refine ⟨sound, fun name member => registered name (names name member), bound, ?_, rfl⟩
  exact ⟨last.entries, last.enumerations, last.composites, last.names,
    fun distinct => { last.tables distinct with }, last.asked⟩

theorem compile_ok {document : Document} {registry : Registry}
    (compiled : document.compile = .ok registry) :
    ∃ workspace, Compiled document workspace registry := by
  obtain ⟨known, workspace, complete, classified, filled, completed, rfl⟩ :=
    compile_eq_ok.mp compiled
  obtain ⟨start, names⟩ := classify_ok classified
  exact ⟨workspace, .of_filled start (fun name member => names ▸ member) filled completed⟩

namespace Compiled

variable {document : Document} {workspace : Workspace} {registry : Registry}

/-- Every composite type has what its lineage gives it: the types that inherit are those of the
categories that were completed. -/
theorem inherits (compiled : Compiled document workspace registry) {name : String}
    {composite : Composite} (present : Fields.get? registry.composites name = some composite) :
    Inherits (Fields.get? registry.composites) composite := by
  obtain ⟨-, -, old, started, -, -, custom⟩ :=
    compiled.completed.composites name composite present
  obtain ⟨entry, registered, -, categories⟩ := compiled.sound.described started
  cases categories with
  | inl own =>
    have table := compiled.sound.composites name old started
    rw [custom own]
    exact .custom own table.direct
  | inr category =>
    obtain ⟨held, known, -, same⟩ := (compiled.sound.entries name entry registered).origin
    have member := mem_group known
    refine compiled.completed.asked name (List.mem_append.mpr ?_) composite present
    rw [← same] at member
    cases category with
    | inl passthrough => exact .inl (passthrough ▸ member)
    | inr several => exact .inr (several ▸ member)

theorem wellFormed (compiled : Compiled document workspace registry) : registry.WellFormed where
  entries := by
    rw [compiled.completed.entries]
    exact fun name entry present => (compiled.sound.entries name entry present).toWellFormed
  composites := by
    intro name composite present
    obtain ⟨named, coherent, -⟩ := compiled.completed.composites name composite present
    exact ⟨named, coherent, fun signature parents => (compiled.inherits present).merged⟩
  enumerations := by
    rw [compiled.completed.enumerations]
    intro name enumeration present
    obtain ⟨named, wellFormed, -⟩ := compiled.sound.enumerations name enumeration present
    exact ⟨named, wellFormed⟩

/-- Types that stand for another one have the initializer of an ancestor. -/
theorem descends_of_inherits {composite : Composite}
    (inherits : Inherits (Fields.get? registry.composites) composite) {name : String}
    (present : Fields.get? registry.composites name = some composite) {signature : Signature}
    {parents : List String} (combined : composite.initializer = .combined signature parents) :
    ∃ ancestor above, Relation.ReflTransGen registry.ParentOf name ancestor ∧
      Fields.get? registry.composites ancestor = some above ∧
      above.lineage = .combined parents := by
  induction inherits generalizing name signature with
  | custom _ direct =>
    rw [direct] at combined
    cases combined
  | @passthrough composite above parent lineage abovePresent _ _ _ initializer _ ih =>
    rw [initializer] at combined
    cases shape : above.initializer with
    | direct =>
      rw [shape] at combined
      cases combined
    | combined own ownParents =>
      rw [shape] at combined
      cases combined
      obtain ⟨ancestor, top, inherits, rest⟩ := ih abovePresent shape
      have upwards : registry.ParentOf name parent := by
        refine ⟨composite, present, ?_⟩
        rw [Composite.parents, lineage]
        exact List.mem_singleton_self parent
      exact ⟨ancestor, top, .head upwards inherits, rest⟩
  | combined lineage _ _ _ _ initializer _ =>
    rw [initializer] at combined
    cases combined
    exact ⟨name, _, .refl, present, lineage⟩

theorem descends (compiled : Compiled document workspace registry) : registry.Descends := by
  intro name composite signature parents present combined
  exact descends_of_inherits (compiled.inherits present) present combined

/-! ## Closure -/

section

variable (compiled : Compiled document workspace registry)

include compiled

theorem hasComposite {name : String} {composite : Composite}
    (present : Fields.get? registry.composites name = some composite) :
    registry.HasComposite name := by
  obtain ⟨-, -, old, started, -⟩ := compiled.completed.composites name composite present
  obtain ⟨entry, registered, typed, -⟩ := compiled.sound.described started
  rw [← compiled.completed.entries] at registered
  exact ⟨⟨entry, registered, typed⟩, composite, present⟩

theorem keeps : workspace.registry.Keeps registry where
  composites := by
    rintro name ⟨-, described⟩
    have named := compiled.completed.names name (Fields.mem_names_iff.mpr described)
    obtain ⟨composite, present⟩ := Fields.mem_names_iff.mp named
    exact compiled.hasComposite present
  enumerations := by
    rintro name ⟨registered, described⟩
    rw [← compiled.completed.entries] at registered
    rw [← compiled.completed.enumerations] at described
    exact ⟨registered, described⟩

/-- A type inherits only types that some ancestor declares. -/
theorem typesKnown {composite : Composite}
    (inherits : Inherits (Fields.get? registry.composites) composite) {name : String}
    (present : Fields.get? registry.composites name = some composite) :
    composite.TypesKnown registry := by
  induction inherits generalizing name with
  | @custom composite lineage _ =>
    obtain ⟨-, -, old, started, same, -, unchanged⟩ :=
      compiled.completed.composites name composite present
    rw [unchanged (same.symm.trans lineage)]
    exact (compiled.sound.typesKnown.tables name old started).mono compiled.keeps
  | passthrough _ abovePresent _ properties catchAll _ _ ih =>
    have above := ih abovePresent
    exact ⟨properties ▸ above.properties, catchAll ▸ above.catchAll⟩
  | @combined composite parents aboves _ abovesPresent _ properties catchAll _ _ ih =>
    have each : ∀ above ∈ aboves, above.TypesKnown registry := by
      intro above member
      obtain ⟨parent, -, found⟩ := Lists.source_of_result abovesPresent member
      exact ih above member found
    constructor
    · intro property member
      obtain ⟨entry, held, rfl⟩ := List.mem_map.mp member
      rw [properties, Composite.mergedProperties_eq] at held
      have listed := (Fields.mem_insertAll held).resolve_right List.not_mem_nil
      obtain ⟨above, among, declared⟩ := List.mem_flatMap.mp listed
      exact (each above among).properties entry.2 (Fields.value_mem declared)
    · intro way takes
      rw [catchAll, Composite.mergedCatchAll_eq] at takes
      obtain ⟨above, among, declared⟩ := List.mem_filterMap.mp (List.mem_of_getLast? takes)
      exact (each above among).catchAll way declared

theorem parentsKnown {composite : Composite}
    (inherits : Inherits (Fields.get? registry.composites) composite) {parent : String}
    (member : parent ∈ composite.parents) : registry.HasComposite parent := by
  unfold Composite.parents at member
  cases inherits with
  | custom lineage =>
    rw [lineage] at member
    cases member
  | passthrough lineage present =>
    rw [lineage] at member
    rw [List.mem_singleton.mp member]
    exact compiled.hasComposite present
  | combined lineage present =>
    rw [lineage] at member
    obtain ⟨above, -, found⟩ := Lists.result_of_source present member
    exact compiled.hasComposite found

theorem closed : registry.Closed := by
  have wellFormed := compiled.wellFormed
  have table : ∀ name composite, Fields.get? registry.composites name = some composite →
      composite.TypesKnown registry := fun name composite present =>
    compiled.typesKnown (compiled.inherits present) present
  constructor
  case entries =>
    intro name entry present
    have fits := (wellFormed.entries name entry present).fits
    rw [compiled.completed.entries] at present
    have known := (compiled.sound.typesKnown.entries name entry present).mono compiled.keeps
    exact ⟨known, fits.known known⟩
  case properties =>
    intro name composite present property member
    have known := (table name composite present).properties property member
    have own := (wellFormed.composites name composite present).2
    have fits := (own.properties _ _ (own.property_of_mem member)).fits
    exact ⟨known, fits.known known⟩
  case catchAlls =>
    intro name composite present way takes
    have known := (table name composite present).catchAll way takes
    have fits := (wellFormed.composites name composite present).2.fits way takes
    exact ⟨known, fits.known known⟩
  case parents =>
    intro name composite present parent member
    exact compiled.parentsKnown (compiled.inherits present) member
  case initializers =>
    intro name composite present signature parents combined parent member
    obtain ⟨aboves, found, -⟩ := (compiled.inherits present).merged combined
    obtain ⟨above, -, held⟩ := Lists.result_of_source (Lists.mapM_eq_some.mp found) member
    exact compiled.hasComposite held

end

end Compiled

end TypedSchema.Compile

namespace TypedSchema

/-- Whatever compiles gives a well-formed registry. -/
theorem Document.compile_wellFormed {document : Document} {registry : Registry}
    (compiled : document.compile = .ok registry) : registry.WellFormed := by
  obtain ⟨workspace, made⟩ := Compile.compile_ok compiled
  exact made.wellFormed

theorem Document.compile_descends {document : Document} {registry : Registry}
    (compiled : document.compile = .ok registry) : registry.Descends := by
  obtain ⟨workspace, made⟩ := Compile.compile_ok compiled
  exact made.descends

theorem Document.compile_closed {document : Document} {registry : Registry}
    (compiled : document.compile = .ok registry) : registry.Closed := by
  obtain ⟨workspace, made⟩ := Compile.compile_ok compiled
  exact made.closed

end TypedSchema
