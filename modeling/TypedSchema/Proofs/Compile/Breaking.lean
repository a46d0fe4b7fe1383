import TypedSchema.Proofs.Compile.Failing

/-!
Why a registry cannot be filled: some name that is known or some schema inside an object type cannot
be resolved, or nothing can ever be right for an object type.
-/

namespace TypedSchema.Compile

variable {document : Document}

/-! ## Object types -/

/-- What binding an object type asks for. -/
inductive AskedInside (owner : String) (definition : Definition) (workspace : Workspace) :
    Goal → Prop where
  | part {inner : Definition} {hint : String}
    (part : Part owner definition .custom inner hint) :
    AskedInside owner definition workspace (.inline inner hint)

/-- What discovering the properties of an object type asks for. -/
inductive AskedNested (owner : String) (definition : Definition) (workspace : Workspace) :
    Goal → Prop where
  | nested {inner : Definition} {hint : String}
    (part : Part owner definition .custom inner hint) (object : inner.shape = .ok .custom)
    (known : hint ∈ Fields.names workspace.known) :
    AskedNested owner definition workspace (.named hint)

section

variable {solve : Solver} (spec : SolverSound document [] solve) {before : Workspace}
  (sound : Sound document before) {error : Error}

include spec sound

omit spec in
theorem discoverProperty_fails {owner key : String} {schema : Json} {outer : Definition}
    (placed : Placed document outer owner) (object : outer.shape = .ok .custom)
    (declared : (key, schema) ∈ outer.properties?.getD [])
    (ran : (discoverProperty solve owner key schema).run before = .error error) :
    Fails document solve (AskedNested owner outer) (fun _ => True) before error := by
  unfold discoverProperty at ran
  split at ran
  · exact (run_pure_error.mp ran).elim
  · rename_i definition found
    obtain ⟨node, shape⟩ := objectType?_eq_some found
    have inside : Part owner outer .custom definition (propertyHint owner (Naming.snake key)) :=
      .property declared node
    simp only [run_bind_error, run_get_error, run_get_ok, false_or] at ran
    obtain ⟨_, _, ⟨rfl, rfl⟩, ran⟩ := ran
    split at ran
    · exact resolveAnonymous_fails sound ⟨placed.part object inside, shape, .inr rfl⟩
        (fun _ known => .nested inside shape known) (run_discard_error.mp ran)
    · exact (run_pure_error.mp ran).elim

theorem discover_fails {name : String} {held : Classified}
    (known : Fields.get? before.known name = some held) (category : held.category = .custom)
    (ran : (discover solve name).run before = .error error) :
    Fails document solve (AskedNested name held.definition) (fun _ => True) before error := by
  have named := sound.known name held known
  rw [category] at named
  simp only [discover, run_bind_error, run_get_error, run_get_ok, run_lift_error, run_lift_ok,
    Workspace.find, Registry.found_error, Registry.found_ok, false_or] at ran
  obtain ⟨_, _, ⟨rfl, rfl⟩, ⟨absent, -⟩ | ⟨found, _, ⟨present, rfl⟩, ran⟩⟩ := ran
  · exact absurd (Fields.mem_names_iff.mpr ⟨held, known⟩) absent
  · rw [known] at present
    cases present
    refine (run_forM_error ran).fails [] (fun done rest results between split runs => ?_)
      fun entry member workspace sound ran =>
        discoverProperty_fails sound named.placed named.shape member ran
    exact discoverEach_ok spec sound named.placed named.shape
      (fun entry member => split ▸ List.mem_append_left _ member) runs

theorem bindProperties_fails {owner : String} {required : Bool} {outer : Definition}
    (placed : Placed document outer owner) (object : outer.shape = .ok .custom)
    {entries : List (String × Json)}
    (declared : ∀ entry ∈ entries, entry ∈ outer.properties?.getD []) {special : SpecialNames}
    (escaped : Naming.Sound special) {possible : Registry → Prop}
    (needed : ∀ registry, possible registry → ∀ entry ∈ entries,
      ∃ inner, Definition.ofJson entry.2 = .ok inner)
    (ran : (bindProperties solve owner required entries special).run before = .error error) :
    Fails document solve (AskedInside owner outer) possible before error := by
  induction entries generalizing before special with
  | nil => exact (run_pure_error.mp ran).elim
  | cons entry rest ih =>
    obtain ⟨external, schema⟩ := entry
    have member := declared _ List.mem_cons_self
    simp only [bindProperties, run_bind_error, run_pure_error, and_false, exists_false,
      or_false] at ran
    rw [Naming.pascalToSnake_fst escaped] at ran
    rcases ran with failed | ⟨resolved, between, resolvedRan, later⟩
    · exact resolveInline_fails sound (fun inner _ node => .part (.property member node))
        (fun registry held => needed registry held _ List.mem_cons_self) failed
    · have inside : ∀ inner, Definition.ofJson schema = .ok inner →
          Placed document inner (propertyHint owner (Naming.snake external)) := fun inner node =>
        placed.part object (.property member node)
      obtain ⟨advances, -⟩ := resolveInline_ok spec sound inside resolvedRan
      exact (ih advances.sound (fun entry among => declared entry (List.mem_cons_of_mem _ among))
        (escaped.pascalToSnake external)
        (fun registry held entry among => needed registry held entry (List.mem_cons_of_mem _ among))
        later).after advances.known

omit spec in
theorem bindCatchAll_fails {owner : String} {outer : Definition}
    (ran : (bindCatchAll solve owner outer).run before = .error error) :
    Fails document solve (AskedInside owner outer)
      (fun registry => ∃ catchAll, BoundCatchAll document registry owner outer catchAll) before
      error := by
  unfold bindCatchAll at ran
  split at ran
  · exact (run_pure_error.mp ran).elim
  · exact (run_pure_error.mp ran).elim
  · exact (run_pure_error.mp ran).elim
  · rename_i schema refused anything declared
    simp only [run_bind_error, run_pure_error, and_false, exists_false, or_false] at ran
    refine resolveInline_fails sound (fun inner _ node => .part (.additional declared node)) ?_ ran
    rintro registry ⟨catchAll, bound⟩
    cases bound with
    | refused absent =>
      rw [declared] at absent
      rcases absent with none | same
      · cases none
      · exact absurd (Option.some.inj same) refused
    | anything same =>
      rw [declared] at same
      exact absurd (Option.some.inj same) anything
    | schema own node =>
      rw [declared] at own
      cases own
      exact ⟨_, node⟩

/-- Why an object type cannot be bound. -/
theorem bind_fails {name : String} {held : Classified}
    (known : Fields.get? before.known name = some held) (category : held.category = .custom)
    (ran : (bind solve name).run before = .error error) :
    Fails document solve (AskedInside name held.definition) (fun registry => ∃ composite,
      BoundTo document registry name held.definition composite) before error ∨
    error = .classNotFound name ∧ name ∉ Fields.names before.registry.composites := by
  have named := sound.known name held known
  rw [category] at named
  have properties : ∀ registry composite,
      BoundTo document registry name held.definition composite →
        ∀ entry ∈ bindingOrder held.definition, ∃ inner, Definition.ofJson entry.2 = .ok inner := by
    intro registry composite bound entry member
    obtain ⟨all, each, -⟩ := bound.properties
    obtain ⟨property, -, own⟩ := Lists.result_of_source each member
    obtain ⟨inner, _, node, -⟩ := own.typed
    exact ⟨inner, node⟩
  simp only [bind, run_bind_error, run_get_error, run_get_ok, run_lift_error, run_lift_ok,
    run_modify_error, and_false, exists_false, or_false, Workspace.find, Registry.composite,
    Registry.found_error, Registry.found_ok, false_or] at ran
  obtain ⟨_, _, ⟨rfl, rfl⟩, ⟨absent, -⟩ | ⟨found, _, ⟨present, rfl⟩, ran⟩⟩ := ran
  · exact absurd (Fields.mem_names_iff.mpr ⟨held, known⟩) absent
  · rw [known] at present
    cases present
    rcases ran with failed | ⟨⟨first, special⟩, between, firstRan, ran⟩
    · exact .inl (bindProperties_fails spec sound named.placed named.shape
        (fun entry member => (mem_splitProperties.1.mp member).1) .nil
        (fun registry held entry member => held.elim fun composite bound =>
          properties registry composite bound entry (List.mem_append_left _ member)) failed)
    obtain ⟨firstAdvances, escaped, -⟩ := bindProperties_ok spec sound named.placed named.shape
      (fun entry member => (mem_splitProperties.1.mp member).1) .nil firstRan
    rcases ran with failed | ⟨⟨second, later⟩, last, secondRan, ran⟩
    · exact .inl ((bindProperties_fails spec firstAdvances.sound named.placed named.shape
        (fun entry member => (mem_splitProperties.2.mp member).1) escaped
        (fun registry held entry member => held.elim fun composite bound =>
          properties registry composite bound entry
            (List.mem_append_right _ member)) failed).after firstAdvances.known)
    obtain ⟨secondAdvances, -⟩ := bindProperties_ok spec firstAdvances.sound named.placed
      named.shape (fun entry member => (mem_splitProperties.2.mp member).1) escaped secondRan
    have advances := firstAdvances.trans secondAdvances
    rcases ran with failed | ⟨catchAll, _, catchAllRan, _, complete, ⟨rfl, rfl⟩, absent, same⟩
    · refine .inl (((bindCatchAll_fails secondAdvances.sound failed).imp (fun _ _ => id)
        ?_).after advances.known)
      exact fun registry held => held.elim fun composite bound => ⟨_, bound.catchAll⟩
    · -- A type that is declared before its parts are resolved is declared afterwards.
      refine .inr ⟨same, fun declared => absent ?_⟩
      obtain ⟨composite, table⟩ := Fields.mem_names_iff.mp declared
      have registered := (sound.composites name composite table).registered
      have whole := advances.trans (bindCatchAll_ok spec secondAdvances.sound named.placed
        named.shape catchAllRan).1
      rw [← whole.composites name registered] at table
      exact Fields.mem_names_iff.mpr ⟨composite, table⟩

end

/-! ## Registering and visiting -/

section

variable {solve : Solver} (spec : SolverSound document [] solve) {before : Workspace}
  (sound : Sound document before) {error : Error}

include spec sound

/-- Why the names that are known cannot be registered. -/
theorem registerAll_fails (ran : (registerAll solve).run before = .error error) :
    Fails document solve (fun workspace goal => ∃ name ∈ Fields.names workspace.known,
      goal = .named name) (fun _ => True) before error := by
  refine (run_forM_error ran).fails [] (fun done rest results between split runs =>
    (registerGroups_ok spec sound runs).1) fun category member workspace sound ran => ?_
  simp only [run_bind_error, run_get_error, run_get_ok, false_or] at ran
  obtain ⟨_, _, ⟨rfl, rfl⟩, ran⟩ := ran
  obtain ⟨done, name, rest, results, between, split, runs, failed⟩ := run_forM_error ran
  have advances := (registerNames_ok spec sound runs).1
  have known : name ∈ Fields.names between.known := by
    have among : name ∈ Workspace.group _ category :=
      split ▸ List.mem_append_right done List.mem_cons_self
    obtain ⟨held, known, -⟩ := group_known sound.distinct among
    exact Fields.mem_names_iff.mpr ⟨held, advances.find known⟩
  exact .goal advances.sound advances.known ⟨name, known, rfl⟩ (run_discard_error.mp failed)

end

section

variable {visit : String → Compile Unit} {holds : List String → Workspace → Prop}
  (distinct : ∀ done workspace, holds done workspace → Fields.Distinct workspace.known)
  (step : ∀ done name before after result, holds done before → name ∈ before.group .custom →
    name ∉ done → (visit name).run before = .ok (result, after) →
      holds (done ++ [name]) after ∧ before.known <+: after.known)
  (calm : Nat → List String → Workspace → Prop)
  (round : ∀ rounds done pending before after results, done ++ pending = before.group .custom →
    holds done before → Runs visit pending before results after → calm (rounds + 1) done before →
      calm rounds (before.group .custom) after)

include distinct step round

/-- Visits to all object types fail in one of the visits, or when rounds have run out with some type
still to be visited. What each round brings about holds by then. -/
theorem visitCustom_fails {rounds visited : Nat} {before : Workspace} {error : Error}
    (start : holds ((before.group .custom).take visited) before)
    (ready : calm rounds ((before.group .custom).take visited) before)
    (within : visited ≤ (before.group .custom).length)
    (ran : (visitCustom visit rounds visited).run before = .error error) :
    (error = .exhausted ∧ ∃ done between, holds done between ∧ calm 0 done between ∧
      done.length < (between.group .custom).length) ∨
    ∃ done name between, holds done between ∧
      name ∈ between.group .custom ∧ name ∉ done ∧ (visit name).run between = .error error := by
  induction rounds generalizing visited before with
  | zero =>
    simp only [visitCustom, run_bind_error, run_get_error, run_get_ok, false_or] at ran
    obtain ⟨_, _, ⟨rfl, rfl⟩, ran⟩ := ran
    split at ran
    · rename_i left
      refine .inl ⟨run_throw_error.mp ran, _, _, start, ready, ?_⟩
      rw [List.length_take]
      omega
    · exact (run_pure_error.mp ran).elim
  | succ rounds ih =>
    simp only [visitCustom, run_bind_error, run_get_error, run_get_ok, false_or] at ran
    obtain ⟨_, current, ⟨rfl, rfl⟩, failed | ⟨_, between, pendingRan, ran⟩⟩ := ran
    · obtain ⟨done, name, rest, results, between, split, runs, failed⟩ := run_forM_error failed
      have listed : ((current.group .custom).take visited ++ done) ++ name :: rest =
          current.group .custom := by
        rw [List.append_assoc, ← split, List.take_append_drop]
      obtain ⟨held, known⟩ := visitPending_ok distinct step start ⟨name :: rest, listed⟩ runs
      refine .inr ⟨_, name, between, held, (group_grows known .custom).subset ?_, ?_, failed⟩
      · exact listed ▸ List.mem_append_right _ List.mem_cons_self
      · have once := group_nodup (distinct _ _ start) .custom
        rw [← listed] at once
        exact fun visited => List.disjoint_of_nodup_append once visited List.mem_cons_self
    · obtain ⟨_, runs⟩ := run_forM_ok pendingRan
      obtain ⟨fewer, next, -, part⟩ := visitRound_ok distinct step start within runs
      have calmer := round _ _ _ _ _ _ (List.take_append_drop ..) start runs ready
      exact ih next (part ▸ calmer) fewer ran

end

end TypedSchema.Compile
