import TypedSchema.Proofs.Compile.References

/-!
What it is that fails. A resolution that fails does so because a goal that it asks for fails, or
because nothing can ever be right for its schema, however much more is registered; there is one
lemma for each rule.
-/

namespace TypedSchema.Compile

/-- Errors about cycles, and not about what a single schema says. -/
def Circular (error : Error) : Prop :=
  ∃ name, error = .circularReference name

/-- Errors about what a single schema says. -/
inductive AboutSchema : Error → Prop where
  | unidentified (name : Option String) (body : Json) : AboutSchema (.unidentified name body)
  | unsupported (context : String) (construct : Unsupported) :
    AboutSchema (.unsupported context construct)

theorem AboutSchema.not_circular {error : Error} (about : AboutSchema error) : ¬Circular error := by
  rintro ⟨_, rfl⟩
  cases about

/-! ## What schemas say -/

theorem ofJson_error {json : Json} {error : Error} (read : Definition.ofJson json = .error error) :
    error = .unidentified none json := by
  cases json <;> cases read <;> rfl

theorem definitionAt_error {hint : String} {schema : Json} {error : Error}
    (read : definitionAt hint schema = .error error) :
    AboutSchema error ∧ ∀ inner, Definition.ofJson schema ≠ .ok inner := by
  unfold definitionAt at read
  cases found : Definition.ofJson schema with
  | ok inner =>
    rw [found] at read
    cases read
  | error thrown =>
    rw [found, ofJson_error found] at read
    cases read
    exact ⟨.unidentified .., nofun⟩

theorem category_error {definition : Definition} {error : Error}
    (found : definition.category = .error error) :
    error = .unidentified none definition.toJson := by
  unfold Definition.category at found
  repeat' split at found
  all_goals first | cases found; rfl | cases found

theorem shape_error {definition : Definition} {hint : String} {error : Error}
    (found : definition.shape.mapError (Error.named hint) = .error error) :
    AboutSchema error ∧ ∀ category, definition.shape ≠ .ok category := by
  cases shape : definition.shape with
  | ok category =>
    rw [shape] at found
    cases found
  | error thrown =>
    have cause : thrown = .unidentified none definition.toJson := by
      unfold Definition.shape at shape
      split at shape
      · cases shape
      · rename_i own
        split at shape
        · cases shape
        · cases shape
          exact category_error own
    rw [shape, cause] at found
    cases found
    exact ⟨.unidentified .., nofun⟩

theorem classify_error {document : Document} {error : Error}
    (refused : classify document = .error error) :
    AboutSchema error := by
  obtain ⟨⟨name, definition⟩, -, failed⟩ := Outcomes.mapM_error refused
  rcases Outcomes.bind_error.mp failed with unshaped | ⟨category, -, ⟨⟩⟩
  exact (shape_error unshaped).1

theorem scalarOf_error {patterns : Patterns} {definition : Definition} {context : String}
    {error : Error} (found : scalarOf patterns definition context = .error error) :
    AboutSchema error := by
  unfold scalarOf at found
  split at found
  · cases found
    exact .unidentified ..
  · split at found <;> cases found
  · cases found

theorem constantsOf_error {name : String} {part : Json} {index : Nat} {error : Error}
    (found : constantsOf name part index = .error error) : AboutSchema error := by
  unfold constantsOf at found
  split at found
  · cases found
    exact .unsupported ..
  · rcases Outcomes.bind_error.mp found with failed | ⟨constants, -, ⟨⟩⟩
    obtain ⟨⟨field, schema⟩, -, own⟩ := Outcomes.mapM_error failed
    simp only at own
    split at own
    · cases own
    · cases own
      exact .unsupported ..

theorem discriminator_error {definition : Definition} {error : Error}
    (found : definition.discriminator? = .error error) : AboutSchema error := by
  unfold Definition.discriminator? at found
  split at found
  · cases found
  · split at found
    · cases found
    · cases found
      exact .unsupported ..

theorem addEntries_error {name : String} {entries : List Json} {special : SpecialNames}
    {members : Fields Member} {error : Error}
    (found : Enumeration.addEntries name entries special members = .error error) :
    AboutSchema error := by
  induction entries generalizing special members with
  | nil => cases found
  | cons raw rest ih =>
    rw [Enumeration.addEntries] at found
    rcases Outcomes.bind_error.mp found with refused | ⟨read, -, later⟩
    · unfold Enumeration.entry? at refused
      split at refused
      · cases refused
      · split at refused
        · cases refused
        · cases refused
          exact .unsupported ..
      · cases refused
    · cases read with
      | none => exact ih later
      | some triple => exact ih later

theorem ofDefinition_error {name : String} {definition : Definition} {error : Error}
    (found : Enumeration.ofDefinition name definition = .error error) : AboutSchema error := by
  unfold Enumeration.ofDefinition at found
  split at found
  · rcases Outcomes.bind_error.mp found with refused | ⟨members, -, ⟨⟩⟩
    exact addEntries_error refused
  · cases found
    exact .unidentified ..

/-! ## Failing -/

/-- What resolving a schema asks for that stands under a name. -/
inductive Asked (owner : String) (definition : Definition) (workspace : Workspace) :
    Goal → Prop where
  | reference {target : String} (refers : RefersTo definition target) :
    Asked owner definition workspace (.named target)
  | part {category : Category} {inner : Definition} {hint : String}
    (shape : definition.shape = .ok category) (inPlace : isAnonymous category = false)
    (part : Part owner definition category inner hint) :
    Asked owner definition workspace (.inline inner hint)
  | parent {inner : Definition} {hint : String}
    (shape : definition.shape = .ok .multiInheritance)
    (part : Part owner definition .multiInheritance inner hint)
    (known : hint ∈ Fields.names workspace.known) :
    Asked owner definition workspace (.named hint)

/-- Why a resolution fails: some goal that it asks for fails, or nothing that can be registered later
makes it possible. -/
inductive Fails (document : Document) (solve : Solver) (asks : Workspace → Goal → Prop)
    (possible : Registry → Prop) (before : Workspace) (error : Error) : Prop where
  | goal {between : Workspace} {goal : Goal} (sound : Sound document between)
    (known : before.known <+: between.known) (asked : asks between goal)
    (failed : (solve goal).run between = .error error)
  | hopeless {between : Workspace} (sound : Sound document between)
    (never : ∀ later, Extends between.registry later → ¬possible later)
    (own : ¬Circular error)

section

variable {document : Document} {solve : Solver} {asks : Workspace → Goal → Prop}
  {possible : Registry → Prop} {before between : Workspace} {error : Error}

theorem Fails.after (known : before.known <+: between.known)
    (fails : Fails document solve asks possible between error) :
    Fails document solve asks possible before error := by
  cases fails with
  | goal sound later asked failed => exact .goal sound (known.trans later) asked failed
  | hopeless sound never own => exact .hopeless sound never own

theorem Fails.imp {weaker : Workspace → Goal → Prop} {stronger : Registry → Prop}
    (fails : Fails document solve asks possible before error)
    (asked : ∀ workspace goal, asks workspace goal → weaker workspace goal)
    (needed : ∀ registry, stronger registry → possible registry) :
    Fails document solve weaker stronger before error := by
  cases fails with
  | goal sound known own failed => exact .goal sound known (asked _ _ own) failed
  | hopeless sound never own =>
    exact .hopeless sound (fun later extended held =>
      never later extended (needed later held)) own

/-- For a schema that needs no name, what is made is what the schema denotes. -/
theorem Fails.of_shaped {name : String} {definition : Definition} {category : Category}
    (fails : Fails document solve asks (fun registry => ∃ resolved,
      Shaped False (patternsOf document) registry category definition name resolved) before error)
    (inPlace : isAnonymous category = false) (other : category ≠ .passthrough) :
    Fails document solve asks (fun registry => ∃ resolved lineage,
      Made document registry name definition category resolved lineage) before error := by
  refine fails.imp (fun _ _ => id) ?_
  rintro registry ⟨resolved, lineage, made⟩
  cases made with
  | shaped _ _ shaped => exact ⟨_, shaped⟩
  | custom => cases inPlace
  | enumeration => cases inPlace
  | combined => cases inPlace
  | heir => exact absurd rfl other
  | synonym => exact absurd rfl other

/-- A run over a list fails as the item does at which it breaks off. -/
theorem Breaks.fails (resolving : List String) {α β : Type} {step : α → Compile β}
    {items : List α}
    (steps : ∀ done rest results between, items = done ++ rest →
      Runs step done before results between → Advances document resolving before between)
    (each : ∀ item ∈ items, ∀ workspace, Sound document workspace →
      (step item).run workspace = .error error →
        Fails document solve asks possible workspace error)
    (breaks : Breaks step items before error) :
    Fails document solve asks possible before error := by
  obtain ⟨done, item, rest, results, between, split, runs, failed⟩ := breaks
  have advances := steps done _ results between split runs
  have member : item ∈ items := split ▸ List.mem_append_right _ List.mem_cons_self
  exact (each item member between advances.sound failed).after advances.known

end

/-! ## Rules -/

section

variable {document : Document} {resolving : List String} {solve : Solver}
  {asks : Workspace → Goal → Prop} {possible : Registry → Prop} {before : Workspace}
  {error : Error} (sound : Sound document before)

include sound

theorem resolveScalar_fails {definition : Definition} {context : String}
    (ran : resolveScalar (patternsOf document) definition context = .error error) :
    Fails document solve asks (fun registry => ∃ resolved,
      Shaped False (patternsOf document) registry .native definition context resolved) before
      error := by
  rcases Outcomes.bind_error.mp ran with refused | ⟨scalar, -, ⟨⟩⟩
  refine .hopeless sound (fun later _ held => ?_) (scalarOf_error refused).not_circular
  obtain ⟨resolved, shaped⟩ := held
  cases shaped with
  | scalar found =>
    rw [refused] at found
    cases found
  | anonymous named => cases named

theorem resolveInline_fails {hint : String} {schema : Json}
    (asked : ∀ inner workspace, Definition.ofJson schema = .ok inner →
      asks workspace (.inline inner hint))
    (needed : ∀ registry, possible registry → ∃ inner, Definition.ofJson schema = .ok inner)
    (ran : (resolveInline solve hint schema).run before = .error error) :
    Fails document solve asks possible before error := by
  simp only [resolveInline, run_bind_error, run_lift_error, run_lift_ok] at ran
  rcases ran with refused | ⟨definition, _, ⟨read, rfl⟩, failed⟩
  · obtain ⟨own, unread⟩ := definitionAt_error refused
    refine .hopeless sound (fun later _ held => ?_) own.not_circular
    obtain ⟨inner, node⟩ := needed later held
    exact unread inner node
  · rw [definitionAt, Outcomes.mapError_ok] at read
    exact .goal sound (List.prefix_refl _) (asked definition _ read) failed

theorem resolveReference_fails {definition : Definition} {context : String}
    (asked : ∀ target workspace, definition.referenceName? = some target →
      asks workspace (.named target))
    (needed : ∀ registry, possible registry →
      ∃ target, definition.referenceName? = some target)
    (ran : (resolveReference solve definition context).run before = .error error) :
    Fails document solve asks possible before error := by
  unfold resolveReference at ran
  split at ran
  · rename_i target referred
    exact .goal sound (List.prefix_refl _) (asked target before referred) ran
  · rename_i absent
    obtain rfl := run_throw_error.mp ran
    refine .hopeless sound (fun later _ held => ?_) nofun
    obtain ⟨target, referred⟩ := needed later held
    rw [absent] at referred
    cases referred

theorem resolveAnonymous_fails {name : String} {added : Classified}
    (named : Named document name added.definition added.category)
    (asked : ∀ workspace : Workspace, name ∈ Fields.names workspace.known →
      asks workspace (.named name))
    (ran : (resolveAnonymous solve name added).run before = .error error) :
    Fails document solve asks possible before error := by
  simp only [resolveAnonymous, run_bind_error, run_modify_error, run_modify_ok, false_or] at ran
  obtain ⟨-, _, rfl, failed⟩ := ran
  exact .goal (sound.adopt named) (adopt_known name added).1
    (asked _ (mem_names_adopt.mpr (.inl rfl))) failed

section

variable {definition : Definition} {name : String} (placed : Placed document definition name)
  (spec : SolverSound document resolving solve)

include placed spec

omit placed spec in
theorem resolveList_fails (shape : definition.shape = .ok .list)
    (ran : (resolveList solve definition name).run before = .error error) :
    Fails document solve (Asked name definition) (fun registry => ∃ resolved,
      Shaped False (patternsOf document) registry .list definition name resolved) before error := by
  unfold resolveList at ran
  split at ran
  · simp only [run_bind_error, run_pure_error, false_or, exists_false, and_false] at ran
  · simp only [run_bind_error, run_pure_error, false_or, exists_false, and_false] at ran
  · rename_i schema constrained items
    simp only [run_bind_error, run_pure_error, and_false, exists_false, or_false] at ran
    refine resolveInline_fails sound (fun inner _ node => .part shape rfl (.item items node)) ?_ ran
    rintro registry ⟨resolved, shaped⟩
    cases shaped with
    | listOfAnything _ other =>
      rw [items] at other
      rcases other with none | anything
      · cases none
      · exact absurd (Option.some.inj anything) constrained
    | list own _ node =>
      rw [items] at own
      cases own
      exact ⟨_, node⟩
    | anonymous named => cases named

theorem resolveUnion_fails (shape : definition.shape = .ok .union)
    (ran : (resolveUnion solve definition name).run before = .error error) :
    Fails document solve (Asked name definition) (fun registry => ∃ resolved,
      Shaped False (patternsOf document) registry .union definition name resolved) before error := by
  rw [resolveUnion, run_bind_error] at ran
  rcases ran with failed | ⟨members, between, -, ran⟩
  · have inside : ∀ options, options ⊆ alternatives definition → ∀ schema index,
        (schema, index) ∈ options → ∀ inner, Definition.ofJson schema = .ok inner →
          Placed document inner (optionHint name index) :=
      fun options among schema index member inner node =>
        placed.part shape (.option (among member) node)
    refine (run_mapM_error failed).fails resolving
      (fun done rest results between split runs => ?_)
      fun option member workspace sound ran => ?_
    · have among : done ⊆ alternatives definition := split ▸ List.subset_append_left done rest
      exact (resolveOptions_ok spec sound (inside done among) runs).1
    · refine resolveInline_fails sound
        (fun inner _ node => .part shape rfl (.option member node)) ?_ ran
      rintro registry ⟨resolved, shaped⟩
      cases shaped with
      | union denotes =>
        obtain ⟨inner, _, node, -⟩ := denotes.mem member
        exact ⟨inner, node⟩
      | anonymous named => cases named
  · -- What is made of the members never fails.
    exfalso
    by_cases nullable : (definition.oneOf?.getD []).any isNullType = true
    · simp only [if_pos nullable] at ran
      cases members with
      | nil => exact run_pure_error.mp ran
      | cons member rest =>
        cases rest with
        | nil => exact run_pure_error.mp ran
        | cons => exact run_pure_error.mp ran
    · simp only [if_neg nullable] at ran
      exact run_pure_error.mp ran

theorem resolveConditional_fails (shape : definition.shape = .ok .polymorph) {parts : List Json}
    (allOf : definition.allOf? = some parts)
    (ran : (resolveConditional solve name parts).run before = .error error) :
    Fails document solve (Asked name definition) (fun registry => ∃ resolved,
      Shaped False (patternsOf document) registry .polymorph definition name resolved) before
      error := by
  simp only [resolveConditional, run_bind_error, run_pure_error, and_false, exists_false,
    or_false] at ran
  refine (run_mapM_error ran).fails resolving
    (fun done rest results between split runs => ?_)
    fun part member workspace sound ran => ?_
  · have among : done ⊆ parts.zipIdx := split ▸ List.subset_append_left done rest
    exact (resolveConditions_ok spec sound (fun part index member inner node =>
      placed.part shape (.branch allOf (among member) node)) runs).1
  · -- A condition that is possible asks for constants, and leads to a schema.
    have needed : ∀ registry resolved,
        Shaped False (patternsOf document) registry .polymorph definition name resolved →
          ∃ constants inner, constantsOf name part.1 part.2 = .ok constants ∧
            Definition.ofJson ((part.1.member? "then").getD .null) = .ok inner := by
      intro registry resolved shaped
      cases shaped with
      | conditional own denotes =>
        rw [allOf] at own
        cases own
        obtain ⟨constants, inner, _, asked, node, -⟩ := denotes.mem member
        exact ⟨constants, inner, asked, node⟩
      | keyed _ absent =>
        rw [allOf] at absent
        cases absent
      | anonymous named => cases named
    simp only [resolveCondition, run_bind_error, run_lift_error, run_lift_ok, run_pure_error,
      and_false, exists_false, or_false] at ran
    rcases ran with refused | ⟨constants, _, ⟨asked, rfl⟩, refused | ⟨inner, _, ⟨node, rfl⟩, failed⟩⟩
    · refine .hopeless sound (fun later _ held => ?_) (constantsOf_error refused).not_circular
      obtain ⟨resolved, shaped⟩ := held
      obtain ⟨constants, _, asked, -⟩ := needed later resolved shaped
      rw [refused] at asked
      cases asked
    · obtain ⟨own, unread⟩ := definitionAt_error refused
      refine .hopeless sound (fun later _ held => ?_) own.not_circular
      obtain ⟨resolved, shaped⟩ := held
      obtain ⟨_, inner, -, node⟩ := needed later resolved shaped
      exact unread inner node
    · rw [definitionAt, Outcomes.mapError_ok] at node
      exact .goal sound (List.prefix_refl _) (.part shape rfl (.branch allOf member node)) failed

omit placed in
theorem resolveKeyed_fails (shape : definition.shape = .ok .polymorph)
    (allOf : definition.allOf? = none)
    (ran : (resolveKeyed solve definition name).run before = .error error) :
    Fails document solve (Asked name definition) (fun registry => ∃ resolved,
      Shaped False (patternsOf document) registry .polymorph definition name resolved) before
      error := by
  have needed : ∀ registry resolved,
      Shaped False (patternsOf document) registry .polymorph definition name resolved →
        ∃ discriminator, definition.discriminator? = .ok (some discriminator) := by
    intro registry resolved shaped
    cases shaped with
    | conditional own =>
      rw [allOf] at own
      cases own
    | keyed _ _ found => exact ⟨_, found⟩
    | anonymous named => cases named
  simp only [resolveKeyed, run_bind_error, run_lift_error, run_lift_ok] at ran
  rcases ran with refused | ⟨found, _, ⟨read, rfl⟩, ran⟩
  · refine .hopeless sound (fun later _ held => ?_) (discriminator_error refused).not_circular
    obtain ⟨resolved, shaped⟩ := held
    obtain ⟨discriminator, found⟩ := needed later resolved shaped
    rw [refused] at found
    cases found
  · cases found with
    | none =>
      obtain rfl := run_throw_error.mp ran
      refine .hopeless sound (fun later _ held => ?_) (AboutSchema.unsupported ..).not_circular
      obtain ⟨resolved, shaped⟩ := held
      obtain ⟨discriminator, found⟩ := needed later resolved shaped
      rw [read] at found
      cases found
    | some discriminator =>
      simp only [run_bind_error, run_pure_error, and_false, exists_false, or_false] at ran
      refine (run_mapM_error ran).fails resolving (fun done rest results between split runs =>
        (resolveTargets_ok spec sound runs).1) fun target member workspace sound ran => ?_
      simp only [resolveTarget, run_bind_error, run_pure_error, and_false,
        exists_false, or_false] at ran
      exact .goal sound (List.prefix_refl _) (.reference (.key shape allOf read member)) ran

theorem resolvePolymorph_fails (shape : definition.shape = .ok .polymorph)
    (ran : (resolvePolymorph solve definition name).run before = .error error) :
    Fails document solve (Asked name definition) (fun registry => ∃ resolved,
      Shaped False (patternsOf document) registry .polymorph definition name resolved) before
      error := by
  unfold resolvePolymorph at ran
  split at ran
  · rename_i parts allOf
    exact resolveConditional_fails sound placed spec shape allOf ran
  · rename_i allOf
    exact resolveKeyed_fails sound spec shape allOf ran

omit placed in
/-- A member that refers to a name fails where the name does, or because the name is not the one of
a composite type. -/
theorem resolveParentReference_fails (shape : definition.shape = .ok .multiInheritance)
    {part : Json} {index : Nat} {inner : Definition} (listed : part ∈ definition.allOf?.getD [])
    (node : Definition.ofJson part = .ok inner) (own : inner.shape = .ok .passthrough)
    (ran : (do
      match (← resolveReference solve inner name).type with
      | .composite parent => return parent
      | other => throw (.unsupported name (.parentType index other)) : Compile String).run before =
        .error error) :
    Fails document solve (Asked name definition)
      (fun registry => ∃ parent, ParentMade registry name (part, index) parent) before error := by
  simp only [run_bind_error] at ran
  rcases ran with failed | ⟨target, between, targetRan, ran⟩
  · refine resolveReference_fails sound
      (fun target _ referred => .reference (.parent shape listed node own referred)) ?_ failed
    rintro registry ⟨parent, made⟩
    obtain ⟨target, _, referred, -⟩ := made.of_passthrough node own
    exact ⟨target, referred⟩
  · obtain ⟨advances, denotes⟩ := resolveReference_ok spec sound targetRan
    split at ran
    · exact (run_pure_error.mp ran).elim
    · rename_i other
      obtain rfl := run_throw_error.mp ran
      refine .hopeless advances.sound (fun later extended held => ?_)
        (AboutSchema.unsupported ..).not_circular
      obtain ⟨parent, made⟩ := held
      obtain ⟨_, _, referred, present, typed⟩ := made.of_passthrough node own
      cases denotes with
      | reference _ found registered =>
        -- The target is registered already, and its type is no composite type.
        rw [referred] at found
        cases found
        rw [extended _ _ registered] at present
        cases present
        exact other _ typed
      | anonymous named => cases named

theorem resolveParent_fails (shape : definition.shape = .ok .multiInheritance) {part : Json}
    {index : Nat} (declared : (part, index) ∈ (definition.allOf?.getD []).zipIdx)
    (ran : (resolveParent solve name part index).run before = .error error) :
    Fails document solve (Asked name definition)
      (fun registry => ∃ parent, ParentMade registry name (part, index) parent) before error := by
  have listed := List.fst_mem_of_mem_zipIdx declared
  simp only [resolveParent, run_bind_error, run_lift_error, run_lift_ok] at ran
  rcases ran with refused | ⟨inner, _, ⟨node, rfl⟩, refused | ⟨category, _, ⟨own, rfl⟩, ran⟩⟩
  · obtain ⟨fault, unread⟩ := definitionAt_error refused
    refine .hopeless sound (fun later _ held => ?_) fault.not_circular
    obtain ⟨parent, made⟩ := held
    obtain ⟨inner, node, -⟩ := made.shaped
    exact unread inner node
  · obtain ⟨fault, unshaped⟩ := shape_error refused
    rw [definitionAt, Outcomes.mapError_ok] at node
    refine .hopeless sound (fun later _ held => ?_) fault.not_circular
    obtain ⟨parent, made⟩ := held
    obtain ⟨other, read, category, shape⟩ := made.shaped
    rw [node] at read
    cases read
    exact unshaped category shape
  · rw [definitionAt, Outcomes.mapError_ok] at node
    rw [Outcomes.mapError_ok] at own
    have anonymous : isAnonymous category = true → ∀ workspace, Sound document workspace →
        (resolveAnonymous solve s!"{name}_Parent{index}" ⟨inner, category⟩).run workspace =
          .error error →
        Fails document solve (Asked name definition)
          (fun registry => ∃ parent, ParentMade registry name (part, index) parent) workspace
          error := by
      intro named workspace sound failed
      have inside : Part name definition .multiInheritance inner s!"{name}_Parent{index}" :=
        .parent declared node own named
      exact resolveAnonymous_fails sound ⟨placed.part shape inside, own, .inr named⟩
        (fun _ known => .parent shape inside known) failed
    cases category with
    | passthrough => exact resolveParentReference_fails sound spec shape listed node own ran
    | custom =>
      simp only [run_bind_error, run_discard_error, run_pure_error, and_false,
        exists_false, or_false] at ran
      exact anonymous rfl _ sound ran
    | multiInheritance =>
      simp only [run_bind_error, run_discard_error, run_pure_error, and_false,
        exists_false, or_false] at ran
      exact anonymous rfl _ sound ran
    | _ =>
      obtain rfl := run_throw_error.mp ran
      refine .hopeless sound (fun later _ held => ?_) (AboutSchema.unsupported ..).not_circular
      obtain ⟨parent, made⟩ := held
      obtain ⟨named, object, -⟩ := made.of_inPlace node own (by decide)
      first | exact object rfl | cases named

theorem resolveParents_fails (shape : definition.shape = .ok .multiInheritance)
    (ran : ((definition.allOf?.getD []).zipIdx.mapM fun (part, index) =>
      resolveParent solve name part index).run before = .error error) :
    Fails document solve (Asked name definition) (fun registry => ∃ parents,
      List.Forall₂ (ParentMade registry name) (definition.allOf?.getD []).zipIdx parents) before
      error := by
  refine (run_mapM_error ran).fails resolving
    (fun done rest results between split runs => ?_)
    fun part member workspace sound ran => ?_
  · have among : done ⊆ (definition.allOf?.getD []).zipIdx :=
      split ▸ List.subset_append_left done rest
    exact (resolveParents_ok spec sound (fun part member inner _ node own anonymous =>
      placed.part shape (.parent (among member) node own anonymous)) runs).1
  · refine (resolveParent_fails sound placed spec shape member ran).imp (fun _ _ => id) ?_
    rintro registry ⟨parents, each⟩
    obtain ⟨parent, -, made⟩ := Lists.result_of_source each member
    exact ⟨parent, made⟩

end

/-! ## Registration -/

section

variable {name : String} {held : Classified} (known : Fields.get? before.known name = some held)
  (spec : SolverSound document (name :: resolving) solve)

include known spec

/-- Why the registration of a name fails. -/
theorem register_fails
    (ran : (register (patternsOf document) solve name held).run before = .error error) :
    Fails document solve (Asked name held.definition)
      (fun registry => ∃ resolved lineage,
        Made document registry name held.definition held.category resolved lineage) before
      error := by
  have named := sound.known name held known
  unfold register at ran
  cases category : held.category with
  | native =>
    rw [category] at named
    simp only [category, run_bind_error, run_lift_error, run_modify_error, and_false,
      exists_false, or_false] at ran
    exact (resolveScalar_fails sound ran).of_shaped rfl (by decide)
  | enumeration =>
    simp only [category, run_bind_error, run_lift_error, run_modify_error, and_false,
      exists_false, or_false] at ran
    refine .hopeless sound (fun later _ made => ?_) (ofDefinition_error ran).not_circular
    obtain ⟨resolved, lineage, made⟩ := made
    cases made with
    | enumeration read =>
      rw [ran] at read
      cases read
    | shaped anonymous => cases anonymous
  | custom =>
    simp only [category, run_modify_error] at ran
  | passthrough =>
    rw [category] at named
    simp only [category, registerPassthrough, run_bind_error] at ran
    rcases ran with failed | ⟨target, between, -, ran⟩
    · refine resolveReference_fails sound
        (fun target _ referred => .reference (.reference named.shape referred)) ?_ failed
      rintro registry ⟨resolved, lineage, made⟩
      cases made with
      | heir referred => exact ⟨_, referred⟩
      | synonym referred => exact ⟨_, referred⟩
      | shaped _ other => exact absurd rfl other
    · split at ran
      · exact (run_modify_error.mp ran).elim
      · exact (run_modify_error.mp ran).elim
  | multiInheritance =>
    rw [category] at named
    simp only [category, run_bind_error, run_modify_error, and_false,
      exists_false, or_false] at ran
    refine (resolveParents_fails sound named.placed spec named.shape ran).imp (fun _ _ => id) ?_
    rintro registry ⟨resolved, lineage, made⟩
    cases made with
    | combined each => exact ⟨_, each⟩
    | shaped anonymous => cases anonymous
  | list =>
    rw [category] at named
    simp only [category, run_bind_error, run_modify_error, and_false,
      exists_false, or_false] at ran
    exact (resolveList_fails sound named.shape ran).of_shaped rfl (by decide)
  | union =>
    rw [category] at named
    simp only [category, run_bind_error, run_modify_error, and_false,
      exists_false, or_false] at ran
    exact (resolveUnion_fails sound named.placed spec named.shape ran).of_shaped rfl (by decide)
  | polymorph =>
    rw [category] at named
    simp only [category, run_bind_error, run_modify_error, and_false,
      exists_false, or_false] at ran
    exact (resolvePolymorph_fails sound named.placed spec named.shape ran).of_shaped rfl (by decide)

end

end

/-! ## Goals -/

/-- Why a name cannot be resolved. -/
inductive NamedFails (document : Document) (self : List String → Solver) (resolving : List String)
    (name : String) (before : Workspace) (error : Error) : Prop where
  | circular (fresh : name ∉ Fields.names before.registry.entries) (under : name ∈ resolving)
    (same : error = .circularReference name)
  | unknown (fresh : name ∉ Fields.names before.registry.entries)
    (absent : name ∉ Fields.names before.known) (same : error = .classNotFound name)
  | inside {held : Classified} (fresh : name ∉ Fields.names before.registry.entries)
    (free : name ∉ resolving) (known : Fields.get? before.known name = some held)
    (fails : Fails document (self (name :: resolving))
      (Asked name held.definition) (fun registry => ∃ resolved lineage,
        Made document registry name held.definition held.category resolved lineage) before error)

/-- What resolving a schema in its place asks for. -/
inductive AskedInPlace (definition : Definition) (hint : String) (workspace : Workspace) :
    Goal → Prop where
  | own {category : Category} (shape : definition.shape = .ok category)
    (anonymous : isAnonymous category = true) (known : hint ∈ Fields.names workspace.known) :
    AskedInPlace definition hint workspace (.named hint)
  | inner {goal : Goal} (asked : Asked hint definition workspace goal) :
    AskedInPlace definition hint workspace goal

section

variable {document : Document} {resolving : List String} {before : Workspace} {error : Error}
  (sound : Sound document before)

include sound

theorem resolveNamed_fails {self : List String → Solver}
    (spec : ∀ resolving, SolverSound document resolving (self resolving)) {name : String}
    (ran : (resolveNamed (patternsOf document) self resolving name).run before = .error error) :
    NamedFails document self resolving name before error := by
  simp only [resolveNamed, run_bind_error, run_get_error, run_get_ok, false_or] at ran
  obtain ⟨_, _, ⟨rfl, rfl⟩, ran⟩ := ran
  split at ran
  · rename_i absent
    have fresh := not_registered absent
    split at ran
    · rename_i under
      simp only [run_bind_error, run_throw_error, run_throw_ok, false_and, exists_false,
        or_false] at ran
      exact .circular fresh (by simpa using under) ran
    · rename_i free
      have notUnder : name ∉ resolving := by simpa using free
      simp only [run_bind_error, run_get_error, run_get_ok, run_lift_error, run_lift_ok, false_or,
        Workspace.find, Registry.entry, Registry.found_error, Registry.found_ok] at ran
      obtain ⟨_, _, ⟨rfl, rfl⟩, ⟨absent, same⟩ | ⟨held, _, ⟨known, rfl⟩, failed | ran⟩⟩ := ran
      · exact .unknown fresh absent same
      · exact .inside fresh notUnder known
          (register_fails sound known (spec (name :: resolving)) failed)
      · -- Once a name has been registered it is found.
        exfalso
        obtain ⟨_, between, registered, _, _, ⟨rfl, rfl⟩, ⟨absent, -⟩ | ⟨_, _, -, ran⟩⟩ := ran
        · exact absent (register_ok fresh notUnder known (spec (name :: resolving)) sound
            registered).2
        · exact run_pure_error.mp ran
  · rename_i registered
    exfalso
    simp only [run_bind_error, run_get_error, run_get_ok, run_lift_error, run_lift_ok,
      run_pure_error, false_or, and_false, exists_false, or_false, Registry.entry,
      Registry.found_error] at ran
    obtain ⟨_, _, ⟨rfl, rfl⟩, absent, -⟩ := ran
    have held : name ∈ Fields.names _ :=
      Fields.has_iff.mp (by simpa [Registry.contains] using registered)
    exact absent held

theorem resolveShape_fails {solve : Solver} (spec : SolverSound document resolving solve)
    {definition : Definition} {hint : String} (placed : Placed document definition hint)
    (ran : (resolveShape (patternsOf document) solve definition hint).run before = .error error) :
    Fails document solve (AskedInPlace definition hint) (fun registry => ∃ resolved,
      Denotes False (patternsOf document) registry definition hint resolved) before error := by
  unfold resolveShape at ran
  split at ran
  · exact (run_pure_error.mp ran).elim
  · rename_i unconstrained
    simp only [run_bind_error, run_lift_error, run_lift_ok] at ran
    rcases ran with refused | ⟨category, _, ⟨shape, rfl⟩, ran⟩
    · obtain ⟨own, unshaped⟩ := shape_error refused
      refine .hopeless sound (fun later _ held => ?_) own.not_circular
      obtain ⟨resolved, denotes⟩ := held
      cases denotes with
      | anything _ anything => exact unconstrained anything
      | shaped _ shape => exact unshaped _ shape
    · rw [Outcomes.mapError_ok] at shape
      have anonymous : isAnonymous category = true → ∀ workspace, Sound document workspace →
          (resolveAnonymous solve hint ⟨definition, category⟩).run workspace = .error error →
            Fails document solve (AskedInPlace definition hint) (fun registry =>
              ∃ resolved, Denotes False (patternsOf document) registry definition hint resolved)
              workspace error := fun named workspace sound failed =>
        resolveAnonymous_fails sound ⟨placed, shape, .inr named⟩
          (fun _ known => .own shape named known) failed
      -- What a schema denotes, it denotes as a schema of its category.
      have inner : ∀ workspace, Fails document solve (Asked hint definition)
          (fun registry => ∃ resolved,
            Shaped False (patternsOf document) registry category definition hint resolved)
            workspace error →
          Fails document solve (AskedInPlace definition hint) (fun registry =>
            ∃ resolved, Denotes False (patternsOf document) registry definition hint resolved)
            workspace error := by
        intro workspace fails
        refine fails.imp (fun _ _ => .inner) ?_
        rintro registry ⟨resolved, denotes⟩
        exact ⟨resolved, denotes.of_shape shape⟩
      cases category with
      | passthrough =>
        refine inner _ (resolveReference_fails sound
          (fun target _ referred => .reference (.reference shape referred)) ?_ ran)
        rintro registry ⟨resolved, shaped⟩
        cases shaped with
        | reference _ referred => exact ⟨_, referred⟩
        | anonymous named => cases named
      | native =>
        rw [run_lift_error] at ran
        exact inner _ (resolveScalar_fails sound ran)
      | list => exact inner _ (resolveList_fails sound shape ran)
      | union => exact inner _ (resolveUnion_fails sound placed spec shape ran)
      | polymorph => exact inner _ (resolvePolymorph_fails sound placed spec shape ran)
      | enumeration => exact anonymous rfl _ sound ran
      | custom => exact anonymous rfl _ sound ran
      | multiInheritance => exact anonymous rfl _ sound ran

end

end TypedSchema.Compile
