import TypedSchema.Proofs.Compile.Affording
import TypedSchema.Proofs.Compile.Completing
import TypedSchema.Proofs.Compile.Rounds

/-!
Filling never fails where everything can be made. Whatever the phases ask for is ready, and there are
layers enough for it.
-/

namespace TypedSchema.Compile

variable {document : Document}

/-! ## Layers at the start -/

theorem reserve_nil (document : Document) :
    reserve document [] + (2 * nesting document + 2) = goalNesting document := by
  have all : waitingNames document [] = Fields.names document.definitions := by
    simp [waitingNames]
  rw [reserve, all, Fields.names, List.length_map, goalNesting]
  exact (Nat.succ_mul ..).symm

theorem affordable_known {workspace : Workspace} (sound : Sound document workspace) {name : String}
    (known : name ∈ Fields.names workspace.known) :
    Affordable document [] (goalNesting document) (.named name) := by
  obtain ⟨held, found⟩ := Fields.mem_names_iff.mp known
  have named := sound.known name held found
  have deep := named.placed.depth_le
  have whole := reserve_nil document
  exact .nested named (by omega)

theorem affordable_placed {definition : Definition} {hint : String}
    (placed : Placed document definition hint) (inside : definition.toJson.depth < nesting document) :
    Affordable document [] (goalNesting document) (.inline definition hint) := by
  have whole := reserve_nil document
  exact .inline placed (by omega)

/-! ## Phases -/

section

variable {one : Workspace} {first : Registry} (compiled : Compiled document one first)
  (apart : NamesApart document) (references : ReferencesListed document)

include compiled apart references

/-- Where everything can be made, nothing fails that asks for what is ready. -/
theorem Fails.refuted {asks : Workspace → Goal → Prop} {possible : Registry → Prop}
    {before : Workspace} {error : Error}
    (fails : Fails document (solve (patternsOf document) (goalNesting document) []) asks possible
      before error)
    (known : ∀ name ∈ Fields.names document.definitions, name ∈ Fields.names before.known)
    (can : possible one.registry)
    (each : ∀ workspace goal, Sound document workspace → asks workspace goal →
      GoalPlaced document goal ∧ Ready document one.registry workspace goal ∧
        Affordable document [] (goalNesting document) goal) : False := by
  cases fails with
  | hopeless later never =>
    exact never one.registry (compiled.extends_sound apart later) can
  | goal sound grown asked failed =>
    obtain ⟨placed, ready, affordable⟩ := each _ _ sound asked
    have circular := solve_stopped compiled apart references _ _ _ _ sound
      (fun name member => (List.IsPrefix.map Prod.fst grown).subset (known name member)) ready
      affordable failed
    exact compiled.not_cyclic apart
      (solve_circular apart _ [] _ _ sound placed nofun failed circular)

variable {before : Workspace} {error : Error}

theorem registerAll_total (sound : Sound document before)
    (known : ∀ name ∈ Fields.names document.definitions, name ∈ Fields.names before.known) :
    (registerAll (solve (patternsOf document) (goalNesting document) [])).run before ≠
      .error error := by
  intro ran
  have fails := registerAll_fails (solve_sound document (goalNesting document) []) sound ran
  refine fails.refuted compiled apart references known trivial ?_
  rintro workspace goal sound ⟨name, held, rfl⟩
  exact ⟨trivial, held, affordable_known sound held⟩

theorem discoverAll_total (start : Registered document before)
    (known : ∀ name ∈ Fields.names document.definitions, name ∈ Fields.names before.known) :
    (visitCustom (discover (solve (patternsOf document) (goalNesting document) []))
      (nesting document) 0).run before ≠ .error error := by
  intro ran
  obtain ⟨name, between, ⟨⟨sound, -⟩, grown⟩, member, failed⟩ := discoverAll_breaks start ran
  obtain ⟨held, found, category⟩ := group_known sound.distinct member
  have spec := solve_sound document (goalNesting document) []
  refine (discover_fails spec sound found category failed).refuted compiled apart references
    (fun name member => (List.IsPrefix.map Prod.fst grown).subset (known name member)) trivial ?_
  rintro workspace goal sound ⟨_, _, held⟩
  exact ⟨trivial, held, affordable_known sound held⟩

theorem bindAll_total (binding : Binding document [] before)
    (known : ∀ name ∈ Fields.names document.definitions, name ∈ Fields.names before.known) :
    (visitCustom (bind (solve (patternsOf document) (goalNesting document) []))
      (nesting document) 0).run before ≠ .error error := by
  intro ran
  obtain ⟨done, name, between, ⟨binding, grown⟩, member, failed⟩ := bindAll_breaks binding ran
  obtain ⟨held, found, category⟩ := group_known binding.sound.distinct member
  have named := binding.sound.known name held found
  have registered := binding.registered name (Fields.mem_names_iff.mpr ⟨held, found⟩)
  have spec := solve_sound document (goalNesting document) []
  rw [category] at named
  rcases bind_fails spec binding.sound found category failed with fails | ⟨-, undeclared⟩
  · refine fails.refuted compiled apart references
      (fun name member => (List.IsPrefix.map Prod.fst grown).subset (known name member))
      (compiled.bound_of_named apart named (compiled.registered apart named)) ?_
    rintro workspace goal _ ⟨part⟩
    have inside := named.placed.part named.shape part
    have smaller := part.inside.depth_lt
    have most := named.placed.depth_le
    exact ⟨inside, compiled.part_stands apart named.placed named.shape part,
      affordable_placed inside (by omega)⟩
  · exact undeclared (binding.sound.declared_of_registered apart named rfl nofun registered)

/-- A registry can be filled from wherever the listed definitions are known. -/
theorem fill_total (sound : Sound document before) (empty : before.registry.entries = [])
    (known : ∀ name ∈ Fields.names document.definitions, name ∈ Fields.names before.known) :
    ∃ after, (fill document).run before = .ok ((), after) := by
  cases ran : (fill document).run before with
  | ok outcome => exact ⟨outcome.2, rfl⟩
  | error error =>
    exfalso
    have spec := solve_sound document (goalNesting document) []
    simp only [fill, run_bind_error] at ran
    rcases ran with failed | ⟨_, between, registered, failed | ⟨_, second, discovered, failed⟩⟩
    · exact registerAll_total compiled apart references sound known failed
    · obtain ⟨start, grown⟩ := registerAll_registered sound registered
      exact discoverAll_total compiled apart references start
        (fun name member => (List.IsPrefix.map Prod.fst grown).subset (known name member)) failed
    · obtain ⟨registering, listed⟩ := registerAll_ok spec sound registered
      have discovering := discoverAll_ok spec registering.sound discovered
      have advances := registering.trans discovering
      exact bindAll_total compiled apart references
        (.start empty advances fun name member => discovering.entries.names (listed name member))
        (fun name member =>
          (List.IsPrefix.map Prod.fst advances.known).subset (known name member)) failed

end

end TypedSchema.Compile
