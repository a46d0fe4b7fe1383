import TypedSchema.Proofs.Compile.Visiting

/-!
Completing types that inherit. A completed type has all that its lineage gives it, from ancestors
that are complete as well; nothing completed changes again, and types that wait for their ancestors
are left alone meanwhile.
-/

namespace TypedSchema.Compile

/-! ## What is inherited -/

/-- A composite type with everything that its lineage gives it, its ancestors being looked up. -/
inductive Inherits (lookup : String → Option Composite) : Composite → Prop where
  | custom {composite : Composite} (lineage : composite.lineage = .custom)
    (direct : composite.initializer = .direct composite.ownSignature) : Inherits lookup composite
  | passthrough {composite above : Composite} {parent : String}
    (lineage : composite.lineage = .passthrough parent) (present : lookup parent = some above)
    (inherited : Inherits lookup above) (properties : composite.properties = above.properties)
    (catchAll : composite.catchAll = above.catchAll)
    (initializer : composite.initializer = above.initializer.renamed composite.name)
    (special : composite.special = SpecialNames.union [] above.special) :
    Inherits lookup composite
  | combined {composite : Composite} {parents : List String} {aboves : List Composite}
    (lineage : composite.lineage = .combined parents)
    (present : List.Forall₂ (fun parent above => lookup parent = some above) parents aboves)
    (inherited : ∀ above ∈ aboves, Inherits lookup above)
    (properties : composite.properties = Composite.mergedProperties aboves)
    (catchAll : composite.catchAll = Composite.mergedCatchAll aboves)
    (initializer : composite.initializer = .combined composite.ownSignature parents)
    (special : composite.special =
      aboves.foldl (fun sofar above => SpecialNames.union sofar above.special) []) :
    Inherits lookup composite

theorem Inherits.mono {lookup wider : String → Option Composite}
    (kept : ∀ name composite, lookup name = some composite → wider name = some composite)
    {composite : Composite} (inherits : Inherits lookup composite) : Inherits wider composite := by
  induction inherits with
  | custom lineage direct => exact .custom lineage direct
  | passthrough lineage present _ properties catchAll initializer special ih =>
    exact .passthrough lineage (kept _ _ present) ih properties catchAll initializer special
  | combined lineage present _ properties catchAll initializer special ih =>
    have wide := present.imp fun parent above => kept parent above
    exact .combined lineage wide ih properties catchAll initializer special

/-- An initializer that is put together goes with a table that is put together likewise. -/
theorem Inherits.merged {lookup : String → Option Composite} {composite : Composite}
    (inherits : Inherits lookup composite) {signature : Signature} {parents : List String}
    (combined : composite.initializer = .combined signature parents) :
    ∃ aboves, parents.mapM lookup = some aboves ∧
      composite.properties = Composite.mergedProperties aboves ∧
      composite.catchAll = Composite.mergedCatchAll aboves := by
  induction inherits generalizing signature with
  | custom _ direct =>
    rw [direct] at combined
    cases combined
  | @passthrough composite above _ _ _ _ properties catchAll initializer _ ih =>
    rw [initializer] at combined
    cases shape : above.initializer with
    | direct =>
      rw [shape] at combined
      cases combined
    | combined own ownParents =>
      -- The list of parents was taken over, and the tables with it.
      rw [shape] at combined
      cases combined
      rw [properties, catchAll]
      exact ih shape
  | combined _ present _ properties catchAll initializer _ _ =>
    rw [initializer] at combined
    cases combined
    exact ⟨_, Lists.mapM_eq_some.mpr present, properties, catchAll⟩

/-! ## Completing one type -/

section

variable {composite above : Composite}

theorem inheritAll_coherent (own : composite.Coherent) (theirs : above.Coherent) :
    (inheritAll above composite).Coherent := by
  have signature : (above.initializer.renamed composite.name).signature.params =
        above.signature.params ∧
      (above.initializer.renamed composite.name).signature.catchAll = above.signature.catchAll := by
    unfold Composite.signature
    cases above.initializer with
    | direct => exact ⟨rfl, rfl⟩
    | combined => exact ⟨rfl, rfl⟩
  exact {
    distinct := theirs.distinct
    properties := theirs.properties
    params := signature.1.trans theirs.params
    catchAll := signature.2.trans theirs.catchAll
    fits := theirs.fits
    special := own.special.union theirs.special }

theorem merge_coherent (own : composite.Coherent) {parents : List Composite}
    (theirs : ∀ parent ∈ parents, parent.Coherent) : (merge parents composite).Coherent where
  distinct := by
    show Fields.Distinct (Composite.mergedProperties parents)
    rw [Composite.mergedProperties_eq]
    exact Fields.distinct_ofList _
  properties := by
    intro name property present
    have merged : Fields.get? (Composite.mergedProperties parents) name = some property := present
    rw [Composite.mergedProperties_eq] at merged
    have listed := (Fields.mem_insertAll (Fields.mem_of_get? merged)).resolve_right
      List.not_mem_nil
    obtain ⟨parent, member, held⟩ := List.mem_flatMap.mp listed
    have table := theirs parent member
    exact table.properties name property (Fields.get?_of_mem table.distinct held)
  params := rfl
  catchAll := rfl
  fits := by
    intro catchAll present
    have merged : Composite.mergedCatchAll parents = some catchAll := present
    rw [Composite.mergedCatchAll_eq] at merged
    obtain ⟨parent, member, held⟩ := List.mem_filterMap.mp (List.mem_of_getLast? merged)
    exact (theirs parent member).fits catchAll held
  special := by
    show Naming.Sound (parents.foldl (fun sofar parent => sofar.union parent.special) _)
    have general : ∀ sofar, Naming.Sound sofar → Naming.Sound
        (parents.foldl (fun sofar parent => SpecialNames.union sofar parent.special) sofar) := by
      induction parents with
      | nil => exact fun _ => id
      | cons parent rest ih =>
        intro sofar sound
        exact ih (fun other member => theirs other (List.mem_cons_of_mem _ member)) _
          (sound.union (theirs parent List.mem_cons_self).special)
    exact general _ own.special

end

/-! ## Registries under completion -/

/-- The composite types that are complete. -/
def Inherited.finished (inherited : Inherited) (name : String) : Option Composite :=
  if name ∈ inherited.complete then Fields.get? inherited.registry.composites name else none

theorem Inherited.finished_eq_some {inherited : Inherited} {name : String}
    {composite : Composite} :
    inherited.finished name = some composite ↔
      name ∈ inherited.complete ∧
        Fields.get? inherited.registry.composites name = some composite := by
  unfold finished
  split
  · rename_i complete
    simp [complete]
  · rename_i incomplete
    simp [incomplete]

/-- What holds of a registry while its types are completed, given what it started as. -/
structure Completing (start : Registry) (inherited : Inherited) : Prop where
  entries : inherited.registry.entries = start.entries
  enumerations : inherited.registry.enumerations = start.enumerations
  composites : ∀ name composite,
    Fields.get? inherited.registry.composites name = some composite →
      composite.name = name ∧ composite.Coherent ∧
        ∃ old, Fields.get? start.composites name = some old ∧
          composite.lineage = old.lineage ∧ composite.description = old.description ∧
          (old.lineage = .custom → composite = old)
  complete : ∀ name composite, inherited.finished name = some composite →
    Inherits inherited.finished composite
  incomplete : ∀ name, name ∉ inherited.complete →
    Fields.get? inherited.registry.composites name = Fields.get? start.composites name
  names : ∀ name ∈ Fields.names start.composites,
    name ∈ Fields.names inherited.registry.composites
  tables : start.Distinct → inherited.registry.Distinct

/-- What completing does while some types wait for it. -/
structure Completes (heirs : List String) (before after : Inherited) : Prop where
  grown : ∀ name ∈ before.complete, name ∈ after.complete
  kept : ∀ name composite, before.finished name = some composite →
    after.finished name = some composite
  waiting : ∀ name ∈ heirs, name ∈ after.complete → name ∈ before.complete

namespace Completes

variable {heirs : List String} {first second third : Inherited}

theorem refl (inherited : Inherited) : Completes heirs inherited inherited :=
  ⟨fun _ => id, fun _ _ => id, fun _ _ => id⟩

theorem trans (earlier : Completes heirs first second) (later : Completes heirs second third) :
    Completes heirs first third where
  grown := fun name member => later.grown name (earlier.grown name member)
  kept := fun name composite held => later.kept name composite (earlier.kept name composite held)
  waiting := fun name heir member =>
    earlier.waiting name heir (later.waiting name heir member)

/-- With fewer types waiting there is less to leave alone. -/
theorem fewer {name : String} (completes : Completes (name :: heirs) first second) :
    Completes heirs first second :=
  { completes with waiting := fun other heir =>
      completes.waiting other (List.mem_cons_of_mem _ heir) }

end Completes

section

variable {start : Registry} {before after : Inherited}

/-- The types that are complete suffice to complete their heirs. -/
theorem inherit_ok (completing : Completing start before) {composite completed : Composite}
    (table : DirectTable composite)
    (plain : composite.lineage ≠ .custom → composite.special = [])
    (ready : ∀ parent ∈ composite.parents, parent ∈ before.complete)
    (made : inherit before.registry composite = .ok completed) :
    completed.name = composite.name ∧ completed.lineage = composite.lineage ∧
      completed.description = composite.description ∧ completed.Coherent ∧
      (composite.lineage = .custom → completed = composite) ∧ Inherits before.finished completed := by
  have found : ∀ parent above, parent ∈ composite.parents →
      before.registry.composite parent = .ok above →
        before.finished parent = some above ∧ above.name = parent ∧ above.Coherent ∧
          Inherits before.finished above := by
    intro parent above member present
    have held := Registry.found_ok.mp present
    have finished := Inherited.finished_eq_some.mpr ⟨ready parent member, held⟩
    obtain ⟨named, coherent, -⟩ := completing.composites parent above held
    exact ⟨finished, named, coherent, completing.complete parent above finished⟩
  unfold inherit at made
  cases lineage : composite.lineage with
  | custom =>
    simp only [lineage] at made
    cases made
    exact ⟨rfl, lineage, rfl, table.toCoherent, fun _ => rfl, .custom lineage table.direct⟩
  | passthrough parent =>
    simp only [lineage] at made
    cases present : before.registry.composite parent with
    | error error =>
      rw [present] at made
      cases made
    | ok above =>
      rw [present] at made
      cases made
      obtain ⟨finished, -, coherent, inherits⟩ :=
        found parent above (by simp [Composite.parents, lineage]) present
      have special : (inheritAll above composite).special = SpecialNames.union [] above.special := by
        rw [inheritAll, plain (by rw [lineage]; nofun)]
      exact ⟨rfl, lineage, rfl, inheritAll_coherent table.toCoherent coherent, nofun,
        .passthrough lineage finished inherits rfl rfl rfl special⟩
  | combined parents =>
    simp only [lineage] at made
    cases present : parents.mapM before.registry.composite with
    | error error =>
      rw [present] at made
      cases made
    | ok aboves =>
      rw [present] at made
      cases made
      have among : ∀ parent ∈ parents, parent ∈ composite.parents := fun parent member => by
        simpa [Composite.parents, lineage] using member
      have each : List.Forall₂ (fun parent above => before.finished parent = some above ∧
          above.name = parent ∧ above.Coherent ∧ Inherits before.finished above) parents aboves :=
        ((List.forall₂_and_left _ _).mpr ⟨among, Outcomes.mapM_ok present⟩).imp
          fun parent above held => found parent above held.1 held.2
      have theirs : ∀ above ∈ aboves, above.Coherent ∧ Inherits before.finished above := by
        intro above member
        obtain ⟨parent, -, -, -, held⟩ := Lists.source_of_result each member
        exact held
      have names : aboves.map Composite.name = parents.map id :=
        Lists.map_of_related each fun parent above held => held.2.1
      rw [List.map_id] at names
      have special : (merge aboves composite).special =
          aboves.foldl (fun sofar above => SpecialNames.union sofar above.special) [] := by
        rw [merge, plain (by rw [lineage]; nofun)]
      exact ⟨rfl, lineage, rfl,
        merge_coherent table.toCoherent fun above member => (theirs above member).1, nofun,
        .combined lineage (each.imp fun _ _ held => held.1)
          (fun above member => (theirs above member).2) rfl rfl (by rw [merge, names]; rfl)
          special⟩

/-- A type is completed once its parents are. -/
theorem Completing.set (completing : Completing start before)
    {name : String} (pending : name ∉ before.complete) {composite completed : Composite}
    (present : Fields.get? start.composites name = some composite) (table : DirectTable composite)
    (named : composite.name = name) (plain : composite.lineage ≠ .custom → composite.special = [])
    (ready : ∀ parent ∈ composite.parents, parent ∈ before.complete)
    (made : inherit before.registry composite = .ok completed)
    (changed : after = {
      registry := before.registry.setComposite completed
      complete := name :: before.complete }) :
    Completing start after ∧
      ∀ other composite, before.finished other = some composite →
        after.finished other = some composite := by
  obtain ⟨sameName, lineage, description, coherent, custom, inherits⟩ :=
    inherit_ok completing table plain ready made
  have own := sameName.trans named
  have composites : ∀ other, Fields.get? after.registry.composites other =
      if other = name then some completed
      else Fields.get? before.registry.composites other := by
    intro other
    rw [changed, Registry.setComposite, Fields.get?_insert, own]
  have complete : after.complete = name :: before.complete := by rw [changed]
  have kept : ∀ other composite, before.finished other = some composite →
      after.finished other = some composite := by
    intro other composite finished
    obtain ⟨member, held⟩ := Inherited.finished_eq_some.mp finished
    have different : other ≠ name := fun same => pending (same ▸ member)
    refine Inherited.finished_eq_some.mpr ⟨complete ▸ List.mem_cons_of_mem _ member, ?_⟩
    rw [composites, if_neg different, held]
  refine ⟨⟨?_, ?_, ?_, ?_, ?_, ?_, ?_⟩, kept⟩
  · rw [changed]
    exact completing.entries
  · rw [changed]
    exact completing.enumerations
  · intro other composite' held
    rw [composites] at held
    split at held
    · rename_i same
      cases held
      exact ⟨same ▸ own, coherent, composite, same ▸ present, lineage, description, custom⟩
    · exact completing.composites other composite' held
  · intro other composite' finished
    obtain ⟨member, held⟩ := Inherited.finished_eq_some.mp finished
    rw [composites] at held
    split at held
    · cases held
      exact inherits.mono kept
    · rename_i different
      rw [complete] at member
      have old := (List.mem_cons.mp member).resolve_left different
      exact (completing.complete other composite'
        (Inherited.finished_eq_some.mpr ⟨old, held⟩)).mono kept
  · intro other absent
    rw [complete, List.mem_cons, not_or] at absent
    rw [composites, if_neg absent.1, completing.incomplete other absent.2]
  · intro other member
    rw [changed]
    exact Fields.mem_names_insert.mpr (.inr (completing.names other member))
  · rw [changed]
    exact fun distinct => (completing.tables distinct).setComposite completed

/-- The types of a registry before any of them inherits. -/
def Starting (start : Registry) : Prop :=
  ∀ name composite, Fields.get? start.composites name = some composite →
    Declared start name composite

theorem Sound.starting {document : Document} {workspace : Workspace}
    (sound : Sound document workspace) : Starting workspace.registry :=
  sound.composites

theorem Starting.completing (starting : Starting start) :
    Completing start { registry := start } := by
  refine ⟨rfl, rfl, fun name composite present => ?_, fun name composite finished => ?_,
    fun _ _ => rfl, fun _ => id, id⟩
  · have declared := starting name composite present
    exact ⟨declared.named, declared.toCoherent, composite, present, rfl, rfl, fun _ => rfl⟩
  · cases (Inherited.finished_eq_some.mp finished).1

theorem completeEach_ok {heirs : List String} {completeOne : String → Inherit Unit}
    (spec : ∀ name before after result, Completing start before →
      (completeOne name).run before = .ok (result, after) →
        Completing start after ∧ Completes heirs before after ∧ name ∈ after.complete)
    {names : List String} (completing : Completing start before) {results : List Unit}
    (runs : Runs completeOne names before results after) :
    Completing start after ∧ Completes heirs before after ∧
      ∀ name ∈ names, name ∈ after.complete := by
  induction runs with
  | nil => exact ⟨completing, .refl _, nofun⟩
  | cons first later ih =>
    obtain ⟨next, completes, done⟩ := spec _ _ _ _ completing first
    obtain ⟨last, others, allDone⟩ := ih next
    refine ⟨last, completes.trans others, fun name member => ?_⟩
    cases List.mem_cons.mp member with
    | inl same => exact others.grown name (same ▸ done)
    | inr other => exact allDone name other

theorem complete_ok (starting : Starting start) (generations : Nat) (heirs : List String)
    (name : String) (before after : Inherited) (result : Unit)
    (completing : Completing start before)
    (ran : (complete generations heirs name).run before = .ok (result, after)) :
    Completing start after ∧ Completes heirs before after ∧ name ∈ after.complete := by
  -- Parents are completed one generation down, with this type among those that wait.
  induction generations generalizing heirs name before after result with
  | zero => exact (run_throw_ok.mp ran).elim
  | succ generations ih =>
    simp only [complete, run_bind_ok, run_get_ok] at ran
    obtain ⟨_, _, ⟨rfl, rfl⟩, ran⟩ := ran
    split at ran
    · rename_i done
      obtain ⟨-, rfl⟩ := run_pure_ok.mp ran
      exact ⟨completing, .refl _, by simpa using done⟩
    · rename_i pending
      split at ran
      · simp only [run_bind_ok, run_throw_ok, false_and, exists_false] at ran
      · rename_i free
        simp only [run_bind_ok, run_get_ok, run_lift_ok, run_modify_ok] at ran
        obtain ⟨_, _, ⟨rfl, rfl⟩, composite, current, ⟨found, rfl⟩, _, between, parentsRan, _, _,
          ⟨rfl, rfl⟩, completed, _, ⟨made, rfl⟩, changed⟩ := ran
        obtain ⟨_, runs⟩ := run_forM_ok parentsRan
        obtain ⟨middle, completes, ready⟩ := completeEach_ok (ih (name :: heirs)) completing runs
        have incomplete : name ∉ current.complete := by simpa using pending
        -- The type has been waiting for its parents, so nothing has completed it meanwhile.
        have waiting : name ∉ _ := fun done =>
          incomplete (completes.waiting name List.mem_cons_self done)
        have old := Registry.found_ok.mp found
        rw [completing.incomplete name incomplete] at old
        have declared := starting name composite old
        obtain ⟨last, kept⟩ := middle.set waiting old declared.toDirectTable declared.named
          declared.plain ready made changed
        refine ⟨last, completes.fewer.trans ⟨?_, kept, ?_⟩, ?_⟩
        · intro other member
          rw [changed]
          exact List.mem_cons_of_mem _ member
        · intro other heir member
          rw [changed] at member
          cases List.mem_cons.mp member with
          | inl same =>
            have among : name ∈ heirs := same ▸ heir
            exact absurd among (by simpa using free)
          | inr earlier => exact earlier
        · rw [changed]
          exact List.mem_cons_self

/-- What all completed types come to, when those of some names have been asked for. -/
structure Completed (sought : List String) (start after : Registry) : Prop where
  entries : after.entries = start.entries
  enumerations : after.enumerations = start.enumerations
  composites : ∀ name composite, Fields.get? after.composites name = some composite →
    composite.name = name ∧ composite.Coherent ∧
      ∃ old, Fields.get? start.composites name = some old ∧
        composite.lineage = old.lineage ∧ composite.description = old.description ∧
        (old.lineage = .custom → composite = old)
  names : ∀ name ∈ Fields.names start.composites, name ∈ Fields.names after.composites
  tables : start.Distinct → after.Distinct
  asked : ∀ name ∈ sought, ∀ composite, Fields.get? after.composites name = some composite →
    Inherits (Fields.get? after.composites) composite

theorem completeAll_ok {registry : Registry} (starting : Starting start) {names : List String}
    (ran : completeAll names start = .ok registry) : Completed names start registry := by
  unfold completeAll at ran
  cases completed : ((names.filter (Fields.has start.composites)).forM
      (complete (start.composites.length + 1) [])).run { registry := start } with
  | error error =>
    simp only [completed] at ran
    cases ran
  | ok outcome =>
    obtain ⟨result, last⟩ := outcome
    simp only [completed] at ran
    cases ran
    obtain ⟨_, runs⟩ := run_forM_ok completed
    obtain ⟨completing, -, done⟩ := completeEach_ok
      (complete_ok starting (start.composites.length + 1) []) starting.completing runs
    refine ⟨completing.entries, completing.enumerations, completing.composites, completing.names,
      completing.tables, fun name member composite present => ?_⟩
    obtain ⟨-, -, old, started, -⟩ := completing.composites name composite present
    have heir : name ∈ names.filter (Fields.has start.composites) := by
      rw [List.mem_filter, Fields.has_iff, Fields.mem_names_iff]
      exact ⟨member, old, started⟩
    have finished := Inherited.finished_eq_some.mpr ⟨done name heir, present⟩
    exact (completing.complete name composite finished).mono fun other above held =>
      (Inherited.finished_eq_some.mp held).2

end

end TypedSchema.Compile
