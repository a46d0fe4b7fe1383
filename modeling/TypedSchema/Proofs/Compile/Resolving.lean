import TypedSchema.Proofs.Compile.Progress

/-!
What resolving gives. A solver that succeeds advances the workspace, and what it gives is what the
goal denotes in the registry afterwards; there is one lemma for each rule, and the solver of all
goals follows by induction on its layers.
-/

namespace TypedSchema.Compile

/-- What a goal stands for in a registry. -/
def Solves (document : Document) (registry : Registry) : Goal → Resolved → Prop
  | .named name, resolved =>
    ∃ entry, Fields.get? registry.entries name = some entry ∧
      resolved = ⟨entry.type, entry.caster⟩
  | .inline definition hint, resolved =>
    Denotes False (patternsOf document) registry definition hint resolved

/-- Schemas are resolved where they stand. -/
def GoalPlaced (document : Document) : Goal → Prop
  | .named _ => True
  | .inline definition hint => Placed document definition hint

def SolverSound (document : Document) (resolving : List String) (solve : Solver) : Prop :=
  ∀ goal before result after, Sound document before →
    (solve goal).run before = .ok (result, after) → GoalPlaced document goal →
    Advances document resolving before after ∧ Solves document after.registry goal result

theorem resolveScalar_ok {patterns : Patterns} {registry : Registry} {definition : Definition}
    {context : String} {resolved : Resolved}
    (found : resolveScalar patterns definition context = .ok resolved) :
    Shaped False patterns registry .native definition context resolved := by
  unfold resolveScalar at found
  cases scalar : scalarOf patterns definition context with
  | error error =>
    rw [scalar] at found
    cases found
  | ok type =>
    rw [scalar] at found
    cases found
    exact .scalar scalar

section

variable {document : Document} {resolving : List String} {solve : Solver}
  (spec : SolverSound document resolving solve) {before after : Workspace} {resolved : Resolved}

include spec

theorem resolveInline_ok (sound : Sound document before) {hint : String} {schema : Json}
    (placed : ∀ inner, Definition.ofJson schema = .ok inner → Placed document inner hint)
    (ran : (resolveInline solve hint schema).run before = .ok (resolved, after)) :
    Advances document resolving before after ∧
      ∃ definition, Definition.ofJson schema = .ok definition ∧
        Denotes False (patternsOf document) after.registry definition hint resolved := by
  simp only [resolveInline, run_bind_ok, run_lift_ok, definitionAt, Outcomes.mapError_ok] at ran
  obtain ⟨definition, _, ⟨read, rfl⟩, ran⟩ := ran
  obtain ⟨advances, denotes⟩ := spec _ _ _ _ sound ran (placed definition read)
  exact ⟨advances, definition, read, denotes⟩

theorem resolveReference_ok (sound : Sound document before) {definition : Definition}
    {context : String}
    (ran : (resolveReference solve definition context).run before = .ok (resolved, after)) :
    Advances document resolving before after ∧
      Shaped False (patternsOf document) after.registry .passthrough definition context
        resolved := by
  unfold resolveReference at ran
  split at ran
  · rename_i target referred
    obtain ⟨advances, entry, present, rfl⟩ := spec _ _ _ _ sound ran trivial
    exact ⟨advances, .reference context referred present⟩
  · exact (run_throw_ok.mp ran).elim

theorem resolveAnonymous_ok (sound : Sound document before) {name : String} {added : Classified}
    (named : Named document name added.definition added.category)
    (ran : (resolveAnonymous solve name added).run before = .ok (resolved, after)) :
    Advances document resolving before after ∧
      ∃ entry, Fields.get? after.registry.entries name = some entry ∧
        resolved = ⟨entry.type, entry.caster⟩ := by
  simp only [resolveAnonymous, run_bind_ok, run_modify_ok] at ran
  obtain ⟨-, _, rfl, ran⟩ := ran
  obtain ⟨advances, entry, present, solves⟩ := spec _ _ _ _ (sound.adopt named) ran trivial
  exact ⟨advances.of_adopt (Fields.mem_names_iff.mpr ⟨entry, present⟩), entry, present, solves⟩

theorem resolveList_ok (sound : Sound document before) {definition : Definition} {name : String}
    (placed : Placed document definition name) (shape : definition.shape = .ok .list)
    (ran : (resolveList solve definition name).run before = .ok (resolved, after)) :
    Advances document resolving before after ∧
      Shaped False (patternsOf document) after.registry .list definition name resolved := by
  unfold resolveList at ran
  split at ran
  · rename_i items
    simp only [run_bind_ok, run_pure_ok] at ran
    obtain ⟨_, _, ⟨rfl, rfl⟩, rfl, rfl⟩ := ran
    exact ⟨.refl sound, .listOfAnything name (.inl items)⟩
  · rename_i items
    simp only [run_bind_ok, run_pure_ok] at ran
    obtain ⟨_, _, ⟨rfl, rfl⟩, rfl, rfl⟩ := ran
    exact ⟨.refl sound, .listOfAnything name (.inr items)⟩
  · rename_i schema constrained items
    simp only [run_bind_ok, run_pure_ok] at ran
    obtain ⟨item, _, itemRan, rfl, rfl⟩ := ran
    obtain ⟨advances, node, read, denotes⟩ := resolveInline_ok spec sound
      (fun inner node => placed.part shape (.item items node)) itemRan
    exact ⟨advances, .list items constrained read denotes⟩

/-! ## Unions -/

theorem resolveOptions_ok (sound : Sound document before) {name : String}
    {options : List (Json × Nat)} {members : List Resolved}
    (placed : ∀ schema index, (schema, index) ∈ options → ∀ inner,
      Definition.ofJson schema = .ok inner → Placed document inner (optionHint name index))
    (runs : Runs (fun (alternative, index) =>
      resolveInline solve (optionHint name index) alternative) options before members after) :
    Advances document resolving before after ∧
      DenotesOptions False (patternsOf document) after.registry name options members := by
  induction options generalizing before members with
  | nil =>
    cases runs
    exact ⟨.refl sound, .nil name⟩
  | cons option rest ih =>
    cases runs with
    | cons first later =>
      obtain ⟨firstAdvances, definition, node, denotes⟩ := resolveInline_ok spec sound
        (placed option.1 option.2 List.mem_cons_self) first
      obtain ⟨advances, others⟩ := ih firstAdvances.sound
        (fun schema index member => placed schema index (List.mem_cons_of_mem _ member)) later
      -- What the first option denotes still stands after the others have been resolved.
      exact ⟨firstAdvances.trans advances, .cons node (denotes.mono advances.entries) others⟩

theorem resolveUnion_ok (sound : Sound document before) {definition : Definition} {name : String}
    (placed : Placed document definition name) (shape : definition.shape = .ok .union)
    (ran : (resolveUnion solve definition name).run before = .ok (resolved, after)) :
    Advances document resolving before after ∧
      Shaped False (patternsOf document) after.registry .union definition name resolved := by
  rw [resolveUnion, run_bind_ok] at ran
  obtain ⟨members, between, membersRan, ran⟩ := ran
  obtain ⟨advances, denotes⟩ := resolveOptions_ok spec sound
    (fun schema index member inner node => placed.part shape (.option member node))
    (run_mapM_ok membersRan)
  have combined : resolved = unionOf definition members ∧ after = between := by
    unfold unionOf
    by_cases nullable : (definition.oneOf?.getD []).any isNullType = true
    · simp only [if_pos nullable] at ran ⊢
      cases members with
      | nil => exact run_pure_ok.mp ran
      | cons member rest =>
        cases rest with
        | nil => exact run_pure_ok.mp ran
        | cons => exact run_pure_ok.mp ran
    · simp only [if_neg nullable] at ran ⊢
      exact run_pure_ok.mp ran
  obtain ⟨rfl, rfl⟩ := combined
  exact ⟨advances, .union denotes⟩

/-! ## Polymorphs -/

theorem resolveConditions_ok (sound : Sound document before) {name : String}
    {parts : List (Json × Nat)} {conditions : List (Condition Caster × TypeExpr)}
    (placed : ∀ part index, (part, index) ∈ parts → ∀ inner,
      Definition.ofJson ((part.member? "then").getD .null) = .ok inner →
        Placed document inner (optionHint name index))
    (runs : Runs (fun (part, index) => resolveCondition solve name part index) parts before
      conditions after) :
    Advances document resolving before after ∧
      DenotesConditions False (patternsOf document) after.registry name parts conditions := by
  induction parts generalizing before conditions with
  | nil =>
    cases runs
    exact ⟨.refl sound, .nil name⟩
  | cons part rest ih =>
    cases runs with
    | cons first later =>
      simp only [resolveCondition, run_bind_ok, run_lift_ok, run_pure_ok, definitionAt,
        Outcomes.mapError_ok] at first
      obtain ⟨constants, _, ⟨asked, rfl⟩, definition, _, ⟨node, rfl⟩, branch, _, branchRan, rfl,
        rfl⟩ := first
      obtain ⟨firstAdvances, denotes⟩ := spec _ _ _ _ sound branchRan
        (placed part.1 part.2 List.mem_cons_self definition node)
      obtain ⟨advances, others⟩ := ih firstAdvances.sound
        (fun part index member => placed part index (List.mem_cons_of_mem _ member)) later
      have branchDenotes := Denotes.mono advances.entries denotes
      exact ⟨firstAdvances.trans advances, .cons asked node branchDenotes others⟩

theorem resolveTargets_ok (sound : Sound document before) {targets : List (String × String)}
    {branches : List ((String × Branch Caster) × TypeExpr)}
    (runs : Runs (fun (key, target) => resolveTarget solve key target) targets before branches
      after) :
    Advances document resolving before after ∧
      List.Forall₂ (TargetDenotes after.registry) targets branches := by
  induction targets generalizing before branches with
  | nil =>
    cases runs
    exact ⟨.refl sound, .nil⟩
  | cons target rest ih =>
    cases runs with
    | cons first later =>
      simp only [resolveTarget, run_bind_ok, run_pure_ok] at first
      obtain ⟨branch, _, branchRan, rfl, rfl⟩ := first
      obtain ⟨firstAdvances, entry, present, rfl⟩ := spec _ _ _ _ sound branchRan trivial
      obtain ⟨advances, others⟩ := ih firstAdvances.sound later
      have denotes : TargetDenotes after.registry target _ :=
        ⟨entry, advances.entries _ _ present, rfl⟩
      exact ⟨firstAdvances.trans advances, .cons denotes others⟩

theorem resolvePolymorph_ok (sound : Sound document before) {definition : Definition}
    {name : String} (placed : Placed document definition name)
    (shape : definition.shape = .ok .polymorph)
    (ran : (resolvePolymorph solve definition name).run before = .ok (resolved, after)) :
    Advances document resolving before after ∧
      Shaped False (patternsOf document) after.registry .polymorph definition name resolved := by
  unfold resolvePolymorph at ran
  split at ran
  · rename_i parts allOf
    simp only [resolveConditional, run_bind_ok, run_pure_ok] at ran
    obtain ⟨conditions, _, conditionsRan, rfl, rfl⟩ := ran
    obtain ⟨advances, denotes⟩ := resolveConditions_ok spec sound
      (fun part index member inner node => placed.part shape (.branch allOf member node))
      (run_mapM_ok conditionsRan)
    exact ⟨advances, .conditional allOf denotes⟩
  · rename_i allOf
    simp only [resolveKeyed, run_bind_ok, run_lift_ok] at ran
    obtain ⟨found, _, ⟨read, rfl⟩, ran⟩ := ran
    cases found with
    | none => exact (run_throw_ok.mp ran).elim
    | some discriminator =>
      simp only [run_bind_ok, run_pure_ok] at ran
      obtain ⟨branches, _, branchesRan, rfl, rfl⟩ := ran
      obtain ⟨advances, denotes⟩ := resolveTargets_ok spec sound (run_mapM_ok branchesRan)
      exact ⟨advances, .keyed name allOf read denotes⟩

/-! ## Parents -/

theorem resolveParent_ok (sound : Sound document before) {name parent : String} {part : Json}
    {index : Nat}
    (placed : ∀ inner category, Definition.ofJson part = .ok inner → inner.shape = .ok category →
      isAnonymous category = true → Placed document inner s!"{name}_Parent{index}")
    (ran : (resolveParent solve name part index).run before = .ok (parent, after)) :
    Advances document resolving before after ∧
      ParentMade after.registry name (part, index) parent := by
  simp only [resolveParent, run_bind_ok, run_lift_ok, definitionAt, Outcomes.mapError_ok] at ran
  obtain ⟨definition, _, ⟨node, rfl⟩, category, _, ⟨shape, rfl⟩, ran⟩ := ran
  -- A parent that is an object type or has parents itself is registered under a name of its own.
  have anonymous : isAnonymous category = true → category ≠ .enumeration →
      ∀ before result, Sound document before →
      (resolveAnonymous solve s!"{name}_Parent{index}" ⟨definition, category⟩).run before =
        .ok (result, after) →
      Advances document resolving before after ∧
        ParentMade after.registry name (part, index) s!"{name}_Parent{index}" := by
    intro named object before result sound made
    have own : Named document s!"{name}_Parent{index}" definition category :=
      ⟨placed definition category node shape named, shape, .inr named⟩
    obtain ⟨advances, entry, present, -⟩ := resolveAnonymous_ok spec sound own made
    exact ⟨advances, .inPlace node shape named object (Fields.mem_names_iff.mpr ⟨entry, present⟩)⟩
  cases category with
  | passthrough =>
    simp only [run_bind_ok] at ran
    obtain ⟨target, _, targetRan, ran⟩ := ran
    obtain ⟨advances, denotes⟩ := resolveReference_ok spec sound targetRan
    split at ran
    · rename_i composite typed
      obtain ⟨rfl, rfl⟩ := run_pure_ok.mp ran
      cases denotes with
      | reference _ referred present => exact ⟨advances, .reference node shape referred present typed⟩
      | anonymous named => cases named
    · exact (run_throw_ok.mp ran).elim
  | custom =>
    simp only [run_bind_ok, run_discard_ok, run_pure_ok] at ran
    obtain ⟨_, _, ⟨_, made⟩, rfl, rfl⟩ := ran
    exact anonymous rfl nofun _ _ sound made
  | multiInheritance =>
    simp only [run_bind_ok, run_discard_ok, run_pure_ok] at ran
    obtain ⟨_, _, ⟨_, made⟩, rfl, rfl⟩ := ran
    exact anonymous rfl nofun _ _ sound made
  | _ => exact (run_throw_ok.mp ran).elim

theorem resolveParents_ok (sound : Sound document before) {name : String}
    {parts : List (Json × Nat)} {parents : List String}
    (placed : ∀ part ∈ parts, ∀ inner category, Definition.ofJson part.1 = .ok inner →
      inner.shape = .ok category → isAnonymous category = true →
        Placed document inner s!"{name}_Parent{part.2}")
    (runs : Runs (fun (part, index) => resolveParent solve name part index) parts before parents
      after) :
    Advances document resolving before after ∧
      List.Forall₂ (ParentMade after.registry name) parts parents := by
  induction runs with
  | nil => exact ⟨.refl sound, .nil⟩
  | cons first later ih =>
    obtain ⟨firstAdvances, made⟩ :=
      resolveParent_ok spec sound (placed _ List.mem_cons_self) first
    obtain ⟨advances, others⟩ := ih firstAdvances.sound fun part member =>
      placed part (List.mem_cons_of_mem _ member)
    exact ⟨firstAdvances.trans advances, .cons (made.mono advances.entries) others⟩

end

/-! ## Registration -/

theorem orNull_ne_composite (type : TypeExpr) (target : String) :
    type.orNull ≠ .composite target := by
  cases type <;> simp [TypeExpr.orNull]

/-- Only references and types made for schemas in their place are composite types. -/
theorem Shaped.ne_composite {ownNodes : Prop} {patterns : Patterns} {registry : Registry}
    {category : Category} {definition : Definition} {hint : String} {resolved : Resolved}
    (shaped : Shaped ownNodes patterns registry category definition hint resolved)
    (other : category ≠ .passthrough) (named : isAnonymous category = false) (target : String) :
    resolved.type ≠ .composite target := by
  cases shaped with
  | reference => exact absurd rfl other
  | scalar => simp
  | listOfAnything => simp
  | list => simp
  | union =>
    rename_i members _
    unfold unionOf
    simp only
    split
    · split
      · exact orNull_ne_composite _ target
      · exact orNull_ne_composite (.union (members.map Resolved.type)) target
    · simp
  | conditional => simp
  | keyed => simp
  | anonymous anonymous =>
    rw [named] at anonymous
    cases anonymous

section

variable {document : Document} {resolving : List String} {name : String}
  {before between after : Workspace} {held : Classified}
  (fresh : name ∉ Fields.names before.registry.entries) (free : name ∉ resolving)
  (known : Fields.get? before.known name = some held)

include fresh free known

omit fresh free known in
theorem mem_names_enter (workspace : Workspace) (name : String) (held : Classified)
    (resolved : Resolved) :
    name ∈ Fields.names (workspace.enter name held resolved).registry.entries :=
  Fields.mem_names_insert.mpr (.inl rfl)

/-- While the parts of a definition are resolved its name is not registered. -/
theorem Advances.thenEnter {resolved : Resolved} {category : Category}
    (advances : Advances document (name :: resolving) before between)
    (shaped : Shaped False (patternsOf document) between.registry category held.definition name
      resolved) (inPlace : isAnonymous held.category = false)
    (target : ∀ target, resolved.type ≠ .composite target)
    (made : Made document between.registry name held.definition held.category resolved none) :
    Advances document resolving before (between.enter name held resolved) := by
  -- The name is under way, so nothing that was resolved meanwhile can have registered it.
  have stillFresh : name ∉ Fields.names between.registry.entries := fun registered =>
    fresh (advances.pending name List.mem_cons_self registered)
  have fits := shaped.fits advances.sound.fit
  have typed := shaped.known advances.sound.typesKnown.entries
  have entered := Advances.enter advances.sound stillFresh free (advances.find known) fits typed
    target inPlace made
  exact (advances.fewer fun other => List.mem_cons_of_mem _).trans entered

theorem Advances.thenEnterShaped {resolved : Resolved} {category : Category}
    (advances : Advances document (name :: resolving) before between)
    (shaped : Shaped False (patternsOf document) between.registry category held.definition name
      resolved) (same : held.category = category) (inPlace : isAnonymous category = false)
    (other : category ≠ .passthrough) :
    Advances document resolving before (between.enter name held resolved) := by
  subst same
  exact advances.thenEnter fresh free known shaped inPlace (shaped.ne_composite other inPlace)
    (.shaped inPlace other shaped)

theorem Advances.thenEnterComposite {lineage : Lineage}
    (advances : Advances document (name :: resolving) before between)
    (made : Made document between.registry name held.definition held.category
      ⟨.composite name, .composite name⟩ (some lineage)) :
    Advances document resolving before (between.enterComposite name held lineage) := by
  have stillFresh : name ∉ Fields.names between.registry.entries := fun registered =>
    fresh (advances.pending name List.mem_cons_self registered)
  have entered := Advances.enterComposite advances.sound stillFresh free (advances.find known) made
  exact (advances.fewer fun other => List.mem_cons_of_mem _).trans entered

variable {solve : Solver} (spec : SolverSound document (name :: resolving) solve)
  (sound : Sound document before)

include spec sound

theorem registerPassthrough_ok (category : held.category = .passthrough) {result : Unit}
    (ran : (registerPassthrough solve name held).run before = .ok (result, after)) :
    Advances document resolving before after ∧
      name ∈ Fields.names after.registry.entries := by
  rw [registerPassthrough, run_bind_ok] at ran
  obtain ⟨target, _, targetRan, ran⟩ := ran
  obtain ⟨advances, denotes⟩ := resolveReference_ok spec sound targetRan
  cases denotes with
  | anonymous named => cases named
  | reference _ referred present =>
    split at ran
    · rename_i parent typed
      obtain rfl := run_modify_ok.mp ran
      refine ⟨advances.thenEnterComposite fresh free known ?_, mem_names_enter ..⟩
      rw [category]
      exact .heir referred present typed
    · rename_i other
      obtain rfl := run_modify_ok.mp ran
      refine ⟨advances.thenEnter fresh free known (.reference name referred present)
        (by rw [category]; rfl) (fun parent same => other parent same) ?_, mem_names_enter ..⟩
      rw [category]
      exact .synonym referred present fun parent same => other parent same

theorem register_ok {result : Unit}
    (ran : (register (patternsOf document) solve name held).run before = .ok (result, after)) :
    Advances document resolving before after ∧
      name ∈ Fields.names after.registry.entries := by
  have named := sound.known name held known
  unfold register at ran
  cases category : held.category with
  | native =>
    simp only [category, run_bind_ok, run_lift_ok, run_modify_ok] at ran
    obtain ⟨resolved, _, ⟨found, rfl⟩, rfl⟩ := ran
    have advances : Advances document (name :: resolving) _ _ := .refl sound
    exact ⟨advances.thenEnterShaped fresh free known (resolveScalar_ok found) category rfl nofun,
      mem_names_enter ..⟩
  | enumeration =>
    simp only [category, run_bind_ok, run_lift_ok, run_modify_ok] at ran
    obtain ⟨enumeration, _, ⟨read, rfl⟩, rfl⟩ := ran
    exact ⟨.enterEnumeration sound fresh free known read category, mem_names_enter ..⟩
  | custom =>
    simp only [category, run_modify_ok] at ran
    subst ran
    refine ⟨.enterComposite sound fresh free known ?_, mem_names_enter ..⟩
    rw [category]
    exact .custom
  | passthrough =>
    simp only [category] at ran
    exact registerPassthrough_ok fresh free known spec sound category ran
  | multiInheritance =>
    simp only [category, run_bind_ok, run_modify_ok] at ran
    obtain ⟨parents, _, parentsRan, rfl⟩ := ran
    rw [category] at named
    obtain ⟨advances, each⟩ := resolveParents_ok spec sound
      (fun part member inner _ node shape anonymous =>
        named.placed.part named.shape (.parent member node shape anonymous))
      (run_mapM_ok parentsRan)
    refine ⟨advances.thenEnterComposite fresh free known ?_, mem_names_enter ..⟩
    rw [category]
    exact .combined each
  | list =>
    simp only [category, run_bind_ok, run_modify_ok] at ran
    obtain ⟨resolved, _, resolvedRan, rfl⟩ := ran
    rw [category] at named
    obtain ⟨advances, denotes⟩ := resolveList_ok spec sound named.placed named.shape resolvedRan
    exact ⟨advances.thenEnterShaped fresh free known denotes category rfl nofun,
      mem_names_enter ..⟩
  | union =>
    simp only [category, run_bind_ok, run_modify_ok] at ran
    obtain ⟨resolved, _, resolvedRan, rfl⟩ := ran
    rw [category] at named
    obtain ⟨advances, denotes⟩ := resolveUnion_ok spec sound named.placed named.shape resolvedRan
    exact ⟨advances.thenEnterShaped fresh free known denotes category rfl nofun,
      mem_names_enter ..⟩
  | polymorph =>
    simp only [category, run_bind_ok, run_modify_ok] at ran
    obtain ⟨resolved, _, resolvedRan, rfl⟩ := ran
    rw [category] at named
    obtain ⟨advances, denotes⟩ :=
      resolvePolymorph_ok spec sound named.placed named.shape resolvedRan
    exact ⟨advances.thenEnterShaped fresh free known denotes category rfl nofun,
      mem_names_enter ..⟩

end

/-! ## Goals -/

section

variable {document : Document} {resolving : List String} {before after : Workspace}
  {resolved : Resolved}

theorem not_registered {registry : Registry} {name : String}
    (absent : (!registry.contains name) = true) : name ∉ Fields.names registry.entries := by
  rw [← Fields.has_iff]
  simpa [Registry.contains] using absent

theorem resolveNamed_ok {self : List String → Solver}
    (spec : ∀ resolving, SolverSound document resolving (self resolving))
    (sound : Sound document before) {name : String}
    (ran : (resolveNamed (patternsOf document) self resolving name).run before =
      .ok (resolved, after)) :
    Advances document resolving before after ∧
      Solves document after.registry (.named name) resolved := by
  simp only [resolveNamed, run_bind_ok, run_get_ok] at ran
  obtain ⟨_, _, ⟨rfl, rfl⟩, ran⟩ := ran
  split at ran
  · rename_i absent
    split at ran
    · simp only [run_bind_ok, run_throw_ok, false_and, exists_false] at ran
    · rename_i free
      simp only [run_bind_ok, run_get_ok, run_lift_ok, run_pure_ok] at ran
      obtain ⟨_, _, ⟨rfl, rfl⟩, held, _, ⟨known, rfl⟩, _, _, registered, _, _, ⟨rfl, rfl⟩, entry, _,
        ⟨present, rfl⟩, rfl, rfl⟩ := ran
      -- The name is new, and is registered with itself among the names under way.
      have fresh := not_registered absent
      have notUnder : name ∉ resolving := by simpa using free
      exact ⟨(register_ok fresh notUnder (Registry.found_ok.mp known) (spec (name :: resolving))
        sound registered).1, entry, Registry.found_ok.mp present, rfl⟩
  · simp only [run_bind_ok, run_get_ok, run_lift_ok, run_pure_ok] at ran
    obtain ⟨_, _, ⟨rfl, rfl⟩, entry, _, ⟨present, rfl⟩, rfl, rfl⟩ := ran
    exact ⟨.refl sound, entry, Registry.found_ok.mp present, rfl⟩

theorem resolveShape_ok {solve : Solver} (spec : SolverSound document resolving solve)
    (sound : Sound document before) {definition : Definition} {hint : String}
    (placed : Placed document definition hint)
    (ran : (resolveShape (patternsOf document) solve definition hint).run before =
      .ok (resolved, after)) :
    Advances document resolving before after ∧
      Denotes False (patternsOf document) after.registry definition hint resolved := by
  unfold resolveShape at ran
  split at ran
  · rename_i unconstrained
    obtain ⟨rfl, rfl⟩ := run_pure_ok.mp ran
    exact ⟨.refl sound, .anything hint unconstrained⟩
  · rename_i unconstrained
    have constrained : definition.isUnconstrained = false := by simpa using unconstrained
    simp only [run_bind_ok, run_lift_ok, Outcomes.mapError_ok] at ran
    obtain ⟨category, _, ⟨shape, rfl⟩, ran⟩ := ran
    -- A schema that needs a name of its own is resolved as the type registered under the hint.
    have anonymous : isAnonymous category = true →
        ∀ before, Sound document before →
          (resolveAnonymous solve hint ⟨definition, category⟩).run before = .ok (resolved, after) →
          Advances document resolving before after ∧
            Denotes False (patternsOf document) after.registry definition hint resolved := by
      intro named before sound ran
      obtain ⟨advances, entry, present, rfl⟩ :=
        resolveAnonymous_ok spec sound ⟨placed, shape, .inr named⟩ ran
      exact ⟨advances, .shaped constrained shape (.anonymous named present False.elim)⟩
    have inner : ∀ before, Advances document resolving before after ∧
        Shaped False (patternsOf document) after.registry category definition hint resolved →
          Advances document resolving before after ∧
            Denotes False (patternsOf document) after.registry definition hint resolved :=
      fun _ solved => ⟨solved.1, .shaped constrained shape solved.2⟩
    cases category with
    | passthrough => exact inner _ (resolveReference_ok spec sound ran)
    | native =>
      obtain ⟨found, rfl⟩ := run_lift_ok.mp ran
      exact inner _ ⟨.refl sound, resolveScalar_ok found⟩
    | list => exact inner _ (resolveList_ok spec sound placed shape ran)
    | union => exact inner _ (resolveUnion_ok spec sound placed shape ran)
    | polymorph => exact inner _ (resolvePolymorph_ok spec sound placed shape ran)
    | enumeration => exact anonymous rfl _ sound ran
    | custom => exact anonymous rfl _ sound ran
    | multiInheritance => exact anonymous rfl _ sound ran

/-- Every goal that is solved advances the workspace and gives what it denotes. -/
theorem solve_sound (document : Document) (layers : Nat) (resolving : List String) :
    SolverSound document resolving (solve (patternsOf document) layers resolving) := by
  -- A registration solves its goals with one more name under way, so the names vary.
  induction layers generalizing resolving with
  | zero =>
    intro goal before result after sound ran placed
    exact (run_throw_ok.mp ran).elim
  | succ layers ih =>
    intro goal before result after sound ran placed
    cases goal with
    | named name => exact resolveNamed_ok ih sound ran
    | inline definition hint => exact resolveShape_ok (ih resolving) sound placed ran

end

end TypedSchema.Compile
