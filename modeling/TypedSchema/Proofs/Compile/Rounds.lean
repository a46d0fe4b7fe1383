import Mathlib.Data.List.Perm.Subperm
import TypedSchema.Proofs.Compile.Breaking
import TypedSchema.Proofs.Compile.Ending

/-!
Visits to all object types end. A visit makes only types known that are nested less deep than the
one it goes to, so each round leaves one level less to be visited, and there are as many rounds as
levels.
-/

namespace TypedSchema.Compile

/-- The object types that have not been visited are nested at most so many levels deep. -/
def Shallow (levels : Nat) (done : List String) (workspace : Workspace) : Prop :=
  ∀ name held, Fields.get? workspace.known name = some held → held.category = .custom →
    name ∉ done → held.definition.toJson.depth ≤ levels

theorem exists_unvisited {workspace : Workspace} (distinct : Fields.Distinct workspace.known)
    {done : List String} (fewer : done.length < (workspace.group .custom).length) :
    ∃ name ∈ workspace.group .custom, name ∉ done := by
  by_contra all
  have within : workspace.group .custom ⊆ done := by
    intro name member
    by_contra unvisited
    exact all ⟨name, member, unvisited⟩
  have most := (List.subperm_of_subset (group_nodup distinct .custom) within).length_le
  omega

section

variable {visit : String → Compile Unit} {holds : List String → Workspace → Prop}
  (distinct : ∀ done workspace, holds done workspace → Fields.Distinct workspace.known)
  (step : ∀ done name before after result, holds done before → name ∈ before.group .custom →
    name ∉ done → (visit name).run before = .ok (result, after) →
      holds (done ++ [name]) after ∧ before.known <+: after.known)
  (adds : ∀ levels done name held before after result, holds done before →
    Fields.get? before.known name = some held → held.definition.toJson.depth ≤ levels + 1 →
      (visit name).run before = .ok (result, after) → Adds levels before after)

include distinct step adds

/-- A round of visits to types that are nested at most one level deeper than what it adds. -/
theorem visitPending_adds {levels : Nat} {pending done : List String} {before after : Workspace}
    {results : List Unit} (start : holds done before)
    (listed : done ++ pending <+: before.group .custom)
    (shallow : ∀ name ∈ pending, ∃ held, Fields.get? before.known name = some held ∧
      held.definition.toJson.depth ≤ levels + 1)
    (runs : Runs visit pending before results after) : Adds levels before after := by
  induction runs generalizing done with
  | nil workspace => exact .refl workspace
  | @cons name rest _ _ before between after first later ih =>
    have split : done ++ name :: rest = (done ++ [name]) ++ rest := by simp
    obtain ⟨member, fresh⟩ := unvisited_next (distinct done before start) listed
    obtain ⟨held, found, deep⟩ := shallow name List.mem_cons_self
    obtain ⟨next, known⟩ := step done name _ _ _ start member fresh first
    have own := adds levels done name held _ _ _ start found deep first
    refine own.trans (ih next (split ▸ listed.trans (group_grows known .custom)) ?_)
    intro other among
    obtain ⟨outer, present, below⟩ := shallow other (List.mem_cons_of_mem name among)
    obtain ⟨more, grown⟩ := known
    exact ⟨outer, by rw [← grown, Fields.get?_append, present, Option.some_or], below⟩

/-- After a round there is one level less to be visited. -/
theorem visitRound_shallow (levels : Nat) (done pending : List String) (before after : Workspace)
    (results : List Unit) (split : done ++ pending = before.group .custom)
    (start : holds done before) (runs : Runs visit pending before results after)
    (shallow : Shallow (levels + 1) done before) :
    Shallow levels (before.group .custom) after := by
  have once := group_nodup (distinct done before start) .custom
  rw [← split] at once
  have each : ∀ name ∈ pending, ∃ held, Fields.get? before.known name = some held ∧
      held.definition.toJson.depth ≤ levels + 1 := by
    intro name member
    obtain ⟨held, found, object⟩ :=
      group_known (distinct done before start) (split ▸ List.mem_append_right done member)
    exact ⟨held, found, shallow name held found object fun visited =>
      List.disjoint_of_nodup_append once visited member⟩
  have round := visitPending_adds distinct step adds start ⟨[], by rw [List.append_nil, split]⟩
    each runs
  intro name held known object unvisited
  rcases round.known name held known with old | ⟨deep, -⟩
  · exact absurd (object ▸ mem_group old) unvisited
  · exact deep

/-- Rounds never run out: visits fail in one of the visits. -/
theorem visitCustom_breaks {rounds : Nat} {before : Workspace} {error : Error}
    (start : holds [] before)
    (shallow : ∀ name held, Fields.get? before.known name = some held →
      held.definition.toJson.depth ≤ rounds)
    (ran : (visitCustom visit rounds 0).run before = .error error) :
    ∃ done name between, (holds done between ∧ before.known <+: between.known) ∧
      name ∈ between.group .custom ∧ name ∉ done ∧ (visit name).run between = .error error := by
  have unvisited : holds ((before.group .custom).take 0) before ∧ before.known <+: before.known :=
    ⟨start, List.prefix_refl _⟩
  have ready : Shallow rounds ((before.group .custom).take 0) before :=
    fun name held known _ _ => shallow name held known
  rcases @visitCustom_fails _ (fun done workspace => holds done workspace ∧
      before.known <+: workspace.known) (fun done workspace holding => distinct _ _ holding.1)
    (fun done name _ _ _ holding member fresh visited => by
      obtain ⟨next, grown⟩ := step done name _ _ _ holding.1 member fresh visited
      exact ⟨⟨next, holding.2.trans grown⟩, grown⟩)
    Shallow (fun levels done pending _ _ results split holding =>
      visitRound_shallow distinct step adds levels done pending _ _ results split holding.1)
    _ _ _ _ unvisited ready (Nat.zero_le _) ran with
    ⟨-, done, between, ⟨holding, -⟩, flat, fewer⟩ | broken
  · -- When the rounds are over, no type is left that is nested at all.
    obtain ⟨name, member, unvisited⟩ := exists_unvisited (distinct done between holding) fewer
    obtain ⟨held, found, object⟩ := group_known (distinct done between holding) member
    have deep := flat name held found object unvisited
    have positive := depth_pos held.definition
    omega
  · exact broken

end

/-! ## Phases -/

variable {document : Document}

theorem goalNesting_ge (document : Document) : 2 * nesting document + 2 ≤ goalNesting document :=
  Nat.le_mul_of_pos_left _ (Nat.succ_pos _)

section

variable {before after : Workspace} {levels : Nat}

/-- Where all that is known is registered, nothing is to be entered. -/
theorem Accounted.of_registered (registered : ∀ name ∈ Fields.names before.known,
    name ∈ Fields.names before.registry.entries) : Accounted [] [] levels before :=
  ⟨fun name known => .inr (.inl (registered name known)), nofun⟩

theorem Placed.room {definition : Definition} {name : String}
    (placed : Placed document definition name) (deep : definition.toJson.depth ≤ levels + 1) :
    Room [] [] levels (goalNesting document) definition.toJson := by
  have within := placed.depth_le
  have whole := goalNesting_ge document
  refine .of_depth deep ?_
  rw [allowance]
  simp
  omega

variable {name : String} {held : Classified} (sound : Sound document before)
  (registered : ∀ name ∈ Fields.names before.known, name ∈ Fields.names before.registry.entries)
  (known : Fields.get? before.known name = some held)
  (deep : held.definition.toJson.depth ≤ levels + 1)

include sound registered known deep

theorem discover_visit : EndsFrom levels
    (discover (solve (patternsOf document) (goalNesting document) []) name) before :=
  discover_ends (solve_ends ..) (.of_registered registered) known
    ((sound.known name held known).placed.room deep)

theorem bind_visit : EndsFrom levels
    (bind (solve (patternsOf document) (goalNesting document) []) name) before :=
  bind_ends (solve_ends ..) (.of_registered registered) known
    ((sound.known name held known).placed.room deep)

end

section

variable {before after : Workspace} {error : Error}

/-- A workspace in which all that is known is registered. -/
structure Registered (document : Document) (workspace : Workspace) : Prop where
  sound : Sound document workspace
  all : ∀ name ∈ Fields.names workspace.known, name ∈ Fields.names workspace.registry.entries

theorem Registered.discover {layers : Nat} (start : Registered document before) {name : String}
    {result : Unit} (member : name ∈ before.group .custom)
    (ran : (discover (solve (patternsOf document) layers []) name).run before =
      .ok (result, after)) : Registered document after ∧ before.known <+: after.known := by
  obtain ⟨held, known, category⟩ := group_known start.sound.distinct member
  have advances := discover_ok (solve_sound document layers []) start.sound known category ran
  refine ⟨⟨advances.sound, fun name known => ?_⟩, advances.known⟩
  exact (advances.adopted name known).elim (advances.entries.names <| start.all name ·) id

/-- Every name that is known gets registered, those included that become known on the way. -/
theorem registerAll_registered {layers : Nat} (sound : Sound document before) {result : Unit}
    (ran : (registerAll (solve (patternsOf document) layers [])).run before =
      .ok (result, after)) : Registered document after ∧ before.known <+: after.known := by
  obtain ⟨advances, listed⟩ := registerAll_ok (solve_sound document layers []) sound ran
  exact ⟨⟨advances.sound, fun name known => (advances.adopted name known).elim (listed name) id⟩,
    advances.known⟩

theorem discoverAll_breaks (start : Registered document before)
    (ran : (visitCustom (discover (solve (patternsOf document) (goalNesting document) []))
      (nesting document) 0).run before = .error error) :
    ∃ name between, (Registered document between ∧ before.known <+: between.known) ∧
      name ∈ between.group .custom ∧
      (discover (solve (patternsOf document) (goalNesting document) []) name).run between =
        .error error := by
  obtain ⟨_, name, between, holding, member, -, failed⟩ :=
    @visitCustom_breaks _ (fun _ workspace => Registered document workspace)
      (fun _ _ holding => holding.sound.distinct)
      (fun _ _ _ _ _ holding member _ visited => holding.discover member visited)
      (fun _ _ _ _ _ _ _ holding known deep visited =>
        (discover_visit holding.sound holding.all known deep).adds visited)
      _ _ _ start (fun name held known => (start.sound.known name held known).placed.depth_le) ran
  exact ⟨name, between, holding, member, failed⟩

theorem bindAll_breaks (start : Binding document [] before)
    (ran : (visitCustom (bind (solve (patternsOf document) (goalNesting document) []))
      (nesting document) 0).run before = .error error) :
    ∃ done name between, (Binding document done between ∧ before.known <+: between.known) ∧
      name ∈ between.group .custom ∧
      (bind (solve (patternsOf document) (goalNesting document) []) name).run between =
        .error error := by
  have spec := solve_sound document (goalNesting document) []
  obtain ⟨done, name, between, holding, member, -, failed⟩ :=
    @visitCustom_breaks _ (Binding document) (fun _ _ holding => holding.sound.distinct)
      (fun _ _ _ _ _ holding member fresh visited => by
        obtain ⟨next, -, grown⟩ := Binding.step spec holding member fresh visited
        exact ⟨next, grown⟩)
      (fun _ _ _ _ _ _ _ holding known deep visited =>
        (bind_visit holding.sound holding.registered known deep).adds visited)
      _ _ _ start (fun name held known => (start.sound.known name held known).placed.depth_le) ran
  exact ⟨done, name, between, holding, member, failed⟩

/-- A registry that cannot be filled is refused for what the document says. -/
theorem fill_rejection (sound : Sound document before) (empty : before.registry.entries = [])
    (listed : ∀ name ∈ Fields.names before.known, name ∈ Fields.names document.definitions)
    (ran : (fill document).run before = .error error) : Rejection error := by
  have spec := solve_sound document (goalNesting document) []
  simp only [fill, run_bind_error] at ran
  rcases ran with failed | ⟨_, first, registerRan, failed | ⟨_, second, discoverRan, failed⟩⟩
  · have accounted : Accounted (Fields.names document.definitions) [] (nesting document) before :=
      ⟨fun name known => .inl (listed name known),
        fun name _ held known => (sound.known name held known).placed.depth_le⟩
    have enough : allowance (Fields.names document.definitions) [] (nesting document) <
        goalNesting document := by
      simp [allowance, goalNesting, Fields.names, Nat.succ_mul]
    exact (registerAll_ends (solve_ends ..) enough before accounted).rejection failed
  · have start := (registerAll_registered sound registerRan).1
    obtain ⟨name, between, ⟨holding, -⟩, member, failed⟩ := discoverAll_breaks start failed
    obtain ⟨held, known, -⟩ := group_known holding.sound.distinct member
    have deep := (holding.sound.known name held known).placed.depth_le
    exact (discover_visit holding.sound holding.all known (Nat.le_succ_of_le deep)).rejection failed
  · obtain ⟨registering, registered⟩ := registerAll_ok spec sound registerRan
    have discovering := discoverAll_ok spec registering.sound discoverRan
    have start : Binding document [] second := .start empty (registering.trans discovering)
      fun name member => discovering.entries.names (registered name member)
    obtain ⟨done, name, between, ⟨holding, -⟩, member, failed⟩ := bindAll_breaks start failed
    obtain ⟨held, known, -⟩ := group_known holding.sound.distinct member
    have deep := (holding.sound.known name held known).placed.depth_le
    exact (bind_visit holding.sound holding.registered known (Nat.le_succ_of_le deep)).rejection
      failed

end

end TypedSchema.Compile
