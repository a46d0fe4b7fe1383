import TypedSchema.Proofs.Compile.Binding

/-!
Filling the registry. All names that are listed get registered, and then every object type that is
known, those included that become known on the way, is bound once to its definition.
-/

namespace TypedSchema.Compile

variable {document : Document}

/-! ## Names of a category -/

theorem group_known {workspace : Workspace} (distinct : Fields.Distinct workspace.known)
    {category : Category} {name : String} (member : name ∈ workspace.group category) :
    ∃ held, Fields.get? workspace.known name = some held ∧ held.category = category := by
  obtain ⟨entry, listed, rfl⟩ := List.mem_map.mp member
  obtain ⟨among, same⟩ := List.mem_filter.mp listed
  exact ⟨entry.2, Fields.get?_of_mem distinct among, by simpa using same⟩

theorem mem_group {workspace : Workspace} {name : String} {held : Classified}
    (known : Fields.get? workspace.known name = some held) :
    name ∈ workspace.group held.category := by
  have listed := Fields.mem_of_get? known
  exact Fields.name_mem (List.mem_filter.mpr ⟨listed, by simp⟩)

theorem group_grows {before after : Workspace} (known : before.known <+: after.known)
    (category : Category) : before.group category <+: after.group category :=
  (known.filter _).map _

theorem group_nodup {workspace : Workspace} (distinct : Fields.Distinct workspace.known)
    (category : Category) : (workspace.group category).Nodup :=
  distinct.sublist (List.filter_sublist.map _)

/-! ## Registering -/

section

variable {solve : Solver} (spec : SolverSound document [] solve) {before after : Workspace}

include spec

theorem registerNames_ok (sound : Sound document before) {names : List String}
    {results : List Unit}
    (runs : Runs (fun name => discard (solve (.named name))) names before results after) :
    Advances document [] before after ∧
      ∀ name ∈ names, name ∈ Fields.names after.registry.entries := by
  induction runs with
  | nil => exact ⟨.refl sound, nofun⟩
  | cons first later ih =>
    obtain ⟨_, ran⟩ := run_discard_ok.mp first
    obtain ⟨firstAdvances, entry, present, -⟩ := spec _ _ _ _ sound ran trivial
    obtain ⟨advances, others⟩ := ih firstAdvances.sound
    refine ⟨firstAdvances.trans advances, fun name member => ?_⟩
    cases List.mem_cons.mp member with
    | inl same =>
      subst same
      exact advances.entries.names (Fields.mem_names_iff.mpr ⟨entry, present⟩)
    | inr other => exact others name other

theorem registerGroups_ok (sound : Sound document before) {categories : List Category}
    {results : List Unit}
    (runs : Runs (fun category => do
      ((← get).group category).forM fun name => discard (solve (.named name)))
      categories before results after) :
    Advances document [] before after ∧
      ∀ category ∈ categories, ∀ name ∈ before.group category,
        name ∈ Fields.names after.registry.entries := by
  induction runs with
  | nil => exact ⟨.refl sound, nofun⟩
  | cons first later ih =>
    simp only [run_bind_ok, run_get_ok] at first
    obtain ⟨_, _, ⟨rfl, rfl⟩, ran⟩ := first
    obtain ⟨_, named⟩ := run_forM_ok ran
    obtain ⟨firstAdvances, registered⟩ := registerNames_ok spec sound named
    obtain ⟨advances, others⟩ := ih firstAdvances.sound
    refine ⟨firstAdvances.trans advances, fun category member name held => ?_⟩
    cases List.mem_cons.mp member with
    | inl same =>
      subst same
      exact advances.entries.names (registered name held)
    | inr other =>
      exact others category other name ((group_grows firstAdvances.known category).subset held)

/-- Every name that is known gets registered. -/
theorem registerAll_ok (sound : Sound document before) {result : Unit}
    (ran : (registerAll solve).run before = .ok (result, after)) :
    Advances document [] before after ∧
      ∀ name ∈ Fields.names before.known, name ∈ Fields.names after.registry.entries := by
  obtain ⟨_, runs⟩ := run_forM_ok ran
  obtain ⟨advances, registered⟩ := registerGroups_ok spec sound runs
  refine ⟨advances, fun name member => ?_⟩
  obtain ⟨held, known⟩ := Fields.mem_names_iff.mp member
  have ordered : held.category ∈ Category.order := by cases held.category <;> decide
  exact registered held.category ordered name (mem_group known)

end

/-! ## Visiting -/

/-- The list of object types has no name twice, so whoever is visited next was not visited before. -/
theorem unvisited_next {workspace : Workspace} (distinct : Fields.Distinct workspace.known)
    {done rest : List String} {name : String}
    (listed : done ++ name :: rest <+: workspace.group .custom) :
    name ∈ workspace.group .custom ∧ name ∉ done := by
  have once := (group_nodup distinct .custom).sublist listed.sublist
  exact ⟨listed.subset (List.mem_append_right _ List.mem_cons_self), fun visited =>
    List.disjoint_of_nodup_append once visited List.mem_cons_self⟩

section

variable {visit : String → Compile Unit} {holds : List String → Workspace → Prop}
  (distinct : ∀ done workspace, holds done workspace → Fields.Distinct workspace.known)
  (step : ∀ done name before after result, holds done before → name ∈ before.group .custom →
    name ∉ done → (visit name).run before = .ok (result, after) →
      holds (done ++ [name]) after ∧ before.known <+: after.known)

include distinct step

theorem visitPending_ok {pending done : List String} {before after : Workspace}
    {results : List Unit} (start : holds done before)
    (listed : done ++ pending <+: before.group .custom)
    (runs : Runs visit pending before results after) :
    holds (done ++ pending) after ∧ before.known <+: after.known := by
  induction runs generalizing done with
  | nil => exact ⟨by simpa using start, List.prefix_refl _⟩
  | @cons name rest _ _ before between after first later ih =>
    have split : done ++ name :: rest = (done ++ [name]) ++ rest := by simp
    obtain ⟨member, fresh⟩ := unvisited_next (distinct done before start) listed
    obtain ⟨next, known⟩ := step done name _ _ _ start member fresh first
    -- The list grows only at its end, so the rest of it is still to come.
    obtain ⟨last, grown⟩ := ih next (split ▸ listed.trans (group_grows known .custom))
    exact ⟨split ▸ last, known.trans grown⟩

/-- What each visit keeps holds when those known so far have been visited. -/
theorem visitRound_ok {visited : Nat} {before after : Workspace} {results : List Unit}
    (start : holds ((before.group .custom).take visited) before)
    (within : visited ≤ (before.group .custom).length)
    (runs : Runs visit ((before.group .custom).drop visited) before results after) :
    let now := visited + ((before.group .custom).drop visited).length
    now ≤ (after.group .custom).length ∧ holds ((after.group .custom).take now) after ∧
      before.known <+: after.known ∧ before.group .custom = (after.group .custom).take now := by
  have whole : (before.group .custom).take visited ++ (before.group .custom).drop visited <+:
      before.group .custom := ⟨[], by rw [List.append_nil, List.take_append_drop]⟩
  obtain ⟨next, known⟩ := visitPending_ok distinct step start whole runs
  rw [List.take_append_drop] at next
  have visitedNow : visited + ((before.group .custom).drop visited).length =
      (before.group .custom).length := by
    rw [List.length_drop]
    omega
  -- What was visited by now is the part of the grown list that was there before.
  have grown := group_grows known .custom
  have part := List.prefix_iff_eq_take.mp grown
  rw [part] at next
  rw [visitedNow]
  exact ⟨grown.length_le, next, known, part⟩

/-- What each visit keeps holds when all object types have been visited. -/
theorem visitCustom_ok {rounds visited : Nat} {before after : Workspace} {result : Unit}
    (start : holds ((before.group .custom).take visited) before)
    (within : visited ≤ (before.group .custom).length)
    (ran : (visitCustom visit rounds visited).run before = .ok (result, after)) :
    holds (after.group .custom) after ∧ before.known <+: after.known := by
  induction rounds generalizing visited before with
  | zero =>
    simp only [visitCustom, run_bind_ok, run_get_ok] at ran
    obtain ⟨_, _, ⟨rfl, rfl⟩, ran⟩ := ran
    split at ran
    · exact (run_throw_ok.mp ran).elim
    · obtain ⟨-, rfl⟩ := run_pure_ok.mp ran
      rw [List.take_of_length_le (by omega)] at start
      exact ⟨start, List.prefix_refl _⟩
  | succ rounds ih =>
    simp only [visitCustom, run_bind_ok, run_get_ok] at ran
    obtain ⟨_, current, ⟨rfl, rfl⟩, _, between, pendingRan, ran⟩ := ran
    obtain ⟨_, runs⟩ := run_forM_ok pendingRan
    obtain ⟨fewer, next, known, -⟩ := visitRound_ok distinct step start within runs
    obtain ⟨last, more⟩ := ih next fewer ran
    exact ⟨last, known.trans more⟩

end

/-! ## Filling -/

section

variable {solve : Solver} (spec : SolverSound document [] solve) {before after : Workspace}
  {rounds : Nat} {result : Unit}

include spec

theorem discoverAll_ok (sound : Sound document before)
    (ran : (visitCustom (discover solve) rounds 0).run before = .ok (result, after)) :
    Advances document [] before after := by
  have start : Advances document [] before before := .refl sound
  exact (visitCustom_ok (fun _ workspace advances => Advances.sound advances |>.distinct)
    (fun done name between last _ advances member _ visited => by
      obtain ⟨held, known, category⟩ := group_known (Advances.sound advances).distinct member
      have next := discover_ok spec (Advances.sound advances) known category visited
      exact ⟨advances.trans next, next.known⟩)
    start (Nat.zero_le _) ran).1

/-- The object types that have been visited are bound, and the others are still empty. By now all
that is known is registered. -/
structure Binding (document : Document) (done : List String) (workspace : Workspace) : Prop where
  sound : Sound document workspace
  registered : ∀ name ∈ Fields.names workspace.known,
    name ∈ Fields.names workspace.registry.entries
  bound : ∀ name ∈ done, BoundIn document workspace name
  unbound : ∀ name, name ∉ done → ∀ composite,
    Fields.get? workspace.registry.composites name = some composite → Unbound composite

omit spec in
/-- All that is registered before binding was registered with an empty table. -/
theorem Binding.start (empty : before.registry.entries = [])
    (advances : Advances document [] before after)
    (registered : ∀ name ∈ Fields.names before.known,
      name ∈ Fields.names after.registry.entries) : Binding document [] after := by
  refine ⟨advances.sound, fun name known => ?_, nofun, fun name _ composite present => ?_⟩
  · exact (advances.adopted name known).elim (registered name) id
  · refine advances.created name ?_ composite present
    rw [empty]
    exact List.not_mem_nil

omit spec in
theorem BoundIn.binds {name other : String} (bound : BoundIn document before other)
    (sound : Sound document before) (binds : Binds document name before after)
    (different : other ≠ name) : BoundIn document after other := by
  obtain ⟨held, composite, known, table, lineage, own⟩ := bound
  obtain ⟨more, grown⟩ := binds.known
  refine ⟨held, composite, ?_, ?_, lineage, own.mono binds.entries⟩
  · rw [← grown, Fields.get?_append, known, Option.some_or]
  · rw [binds.others other (sound.composites other composite table).registered different, table]

theorem Binding.step {done : List String} {name : String} (binding : Binding document done before)
    (member : name ∈ before.group .custom) (fresh : name ∉ done)
    (ran : (bind solve name).run before = .ok (result, after)) :
    Binding document (done ++ [name]) after ∧ Extends before.registry after.registry ∧
      before.known <+: after.known := by
  obtain ⟨held, known, category⟩ := group_known binding.sound.distinct member
  have binds := bind_ok spec binding.sound known category (binding.unbound name fresh) ran
  refine ⟨⟨binds.sound, ?_, ?_, ?_⟩, binds.entries, binds.known⟩
  · intro other held
    exact (binds.adopted other held).elim
      (fun old => binds.entries.names (binding.registered other old)) id
  · intro other among
    by_cases same : other = name
    · exact same ▸ binds.bound
    · have old : other ∈ done := by simpa [same] using among
      exact (binding.bound other old).binds binding.sound binds same
  · intro other absent composite present
    have outside : other ∉ done ∧ other ≠ name := by simpa using absent
    by_cases old : other ∈ Fields.names before.registry.entries
    · rw [binds.others other old outside.2] at present
      exact binding.unbound other outside.1 composite present
    · exact binds.created other old outside.2 composite present

/-- When all object types have been visited they are bound, and nothing that was registered is
lost. -/
theorem bindAll_ok (start : Binding document [] before)
    (ran : (visitCustom (bind solve) rounds 0).run before = .ok (result, after)) :
    Binding document (after.group .custom) after ∧ Extends before.registry after.registry ∧
      before.known <+: after.known := by
  have begin : Binding document ((before.group .custom).take 0) before := by
    rw [List.take_zero]
    exact start
  obtain ⟨⟨binding, entries⟩, known⟩ := @visitCustom_ok _
    (fun done workspace => Binding document done workspace ∧
      Extends before.registry workspace.registry)
    (fun _ _ holds => holds.1.sound.distinct)
    (fun done name between last _ holds member fresh ran => by
      obtain ⟨next, grown, known⟩ := holds.1.step spec member fresh ran
      exact ⟨⟨next, holds.2.trans grown⟩, known⟩)
    _ _ _ _ _ ⟨begin, fun _ _ => id⟩ (Nat.zero_le _) ran
  exact ⟨binding, entries, known⟩

end

/-- What a filled registry holds, and what its workspace started with. -/
structure Filled (document : Document) (start after : Workspace) : Prop where
  sound : Sound document after
  known : start.known <+: after.known
  registered : ∀ name ∈ Fields.names start.known, name ∈ Fields.names after.registry.entries
  bound : ∀ name ∈ after.group .custom, BoundIn document after name

theorem fill_ok {before after : Workspace} (sound : Sound document before)
    (empty : before.registry.entries = []) {result : Unit}
    (ran : (fill document).run before = .ok (result, after)) : Filled document before after := by
  simp only [fill, run_bind_ok] at ran
  obtain ⟨_, first, registerRan, _, second, discoverRan, bindRan⟩ := ran
  have spec := solve_sound document (goalNesting document) []
  obtain ⟨registering, registered⟩ := registerAll_ok spec sound registerRan
  have discovering := discoverAll_ok spec registering.sound discoverRan
  have advances := registering.trans discovering
  have start : Binding document [] second :=
    .start empty advances fun name member => discovering.entries.names (registered name member)
  obtain ⟨binding, entries, known⟩ := bindAll_ok spec start bindRan
  refine ⟨binding.sound, advances.known.trans known, fun name member => ?_, binding.bound⟩
  exact entries.names (discovering.entries.names (registered name member))

/-! ## Classifying -/

/-- Definitions are known as they are, in their own categories. -/
theorem classify_each {known : Fields Classified} (classified : classify document = .ok known) :
    List.Forall₂ (fun entry held => held.1 = entry.1 ∧ held.2.definition = entry.2 ∧
      entry.2.shape = .ok held.2.category) document.definitions known := by
  refine (Outcomes.mapM_ok classified).imp fun entry held made => ?_
  cases shape : entry.2.shape with
  | error error =>
    simp only [shape, Except.mapError] at made
    cases made
  | ok category =>
    simp only [shape, Except.mapError] at made
    cases made
    exact ⟨rfl, rfl, rfl⟩

theorem classify_ok {known : Fields Classified} (classified : classify document = .ok known) :
    Sound document { known } ∧ Fields.names known = Fields.names document.definitions := by
  have each := classify_each classified
  have names : Fields.names known = Fields.names document.definitions :=
    Lists.map_of_related each fun entry held own => own.1
  refine ⟨⟨?_, ?_, nofun, nofun, nofun, ⟨nofun, nofun⟩, ⟨.nil, .nil, .nil⟩⟩, names⟩
  · show Fields.Distinct known
    rw [Fields.Distinct, names]
    exact document.distinct
  · intro name held found
    obtain ⟨entry, listed, sameName, same, shape⟩ :=
      Lists.source_of_result each (Fields.mem_of_get? found)
    have own : (name, held.definition) ∈ document.definitions := by
      simp only at sameName same
      rw [sameName, same]
      exact listed
    exact ⟨.listed own, same ▸ shape, .inl own⟩

end TypedSchema.Compile
