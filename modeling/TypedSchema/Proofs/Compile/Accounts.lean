import TypedSchema.Proofs.Compile.Failing

/-!
What resolving adds to a workspace, and how it can be refused. All names that are known are
accounted for: they are still to be entered, registered, or under way. A computation that ends is
refused for what the document says, or registers whatever it makes known, which is nested no deeper
than it may be.
-/

namespace TypedSchema.Compile

/-! ## Rejections -/

/-- What a document is refused for: a schema that has no type, or a reference that leads nowhere or
back to where it started. -/
inductive Rejection : Error → Prop where
  | schema {error : Error} (about : AboutSchema error) : Rejection error
  | unknown (name : String) : Rejection (.classNotFound name)
  | circular (name : String) : Rejection (.circularReference name)

theorem found_rejection {α : Type} {fields : Fields α} {name : String} {error : Error}
    (absent : Registry.found fields name = .error error) : Rejection error := by
  obtain ⟨-, rfl⟩ := Registry.found_error.mp absent
  exact .unknown name

/-! ## Accounts -/

/-- Names that are known are still to be entered, registered, or under way; the definitions of those
to be entered are nested at most so many levels deep. -/
structure Accounted (pending resolving : List String) (most : Nat) (workspace : Workspace) :
    Prop where
  settled : ∀ name ∈ Fields.names workspace.known,
    name ∈ pending ∨ name ∈ Fields.names workspace.registry.entries ∨ name ∈ resolving
  shallow : ∀ name ∈ pending, ∀ held, Fields.get? workspace.known name = some held →
    held.definition.toJson.depth ≤ most

/-- What becomes known on the way is registered, and nested at most so many levels deep. -/
structure Adds (most : Nat) (before after : Workspace) : Prop where
  entries : ∀ name ∈ Fields.names before.registry.entries,
    name ∈ Fields.names after.registry.entries
  known : ∀ name held, Fields.get? after.known name = some held →
    Fields.get? before.known name = some held ∨
      held.definition.toJson.depth ≤ most ∧ name ∈ Fields.names after.registry.entries

/-- What is known after an adoption was known before, or is what was adopted. -/
theorem find_adopt {workspace : Workspace} {name other : String} {added held : Classified}
    (known : Fields.get? (workspace.adopt name added).known other = some held) :
    Fields.get? workspace.known other = some held ∨ other = name ∧ held = added := by
  unfold Workspace.adopt at known
  split at known
  · exact .inl known
  · rw [Fields.get?_insert] at known
    split at known
    · rename_i same
      cases known
      exact .inr ⟨same, rfl⟩
    · exact .inl known

namespace Adds

variable {most : Nat} {first second third : Workspace}

theorem refl (workspace : Workspace) : Adds most workspace workspace :=
  ⟨fun _ => id, fun _ _ => .inl⟩

theorem trans (earlier : Adds most first second) (later : Adds most second third) :
    Adds most first third where
  entries := fun name registered => later.entries name (earlier.entries name registered)
  known := fun name held known => by
    rcases later.known name held known with between | added
    · rcases earlier.known name held between with old | ⟨deep, registered⟩
      · exact .inl old
      · exact .inr ⟨deep, later.entries name registered⟩
    · exact .inr added

theorem mem_known (adds : Adds most first second) {name : String}
    (known : name ∈ Fields.names second.known) :
    name ∈ Fields.names first.known ∨ name ∈ Fields.names second.registry.entries := by
  obtain ⟨held, found⟩ := Fields.mem_names_iff.mp known
  rcases adds.known name held found with old | ⟨-, registered⟩
  · exact .inl (Fields.mem_names_iff.mpr ⟨held, old⟩)
  · exact .inr registered

/-- A schema that was adopted and then registered is one more that became known. -/
theorem of_adopt {name : String} {added : Classified}
    (adds : Adds most (first.adopt name added) second) (deep : added.definition.toJson.depth ≤ most)
    (registered : name ∈ Fields.names second.registry.entries) : Adds most first second where
  entries := fun other held => by
    rw [← (@adopt_known first name added).2] at held
    exact adds.entries other held
  known := fun other held known => by
    rcases adds.known other held known with adopted | more
    · rcases find_adopt adopted with old | ⟨rfl, rfl⟩
      · exact .inl old
      · exact .inr ⟨deep, registered⟩
    · exact .inr more

end Adds

section

variable {pending resolving : List String} {most : Nat} {before after : Workspace}

theorem Accounted.advance (accounted : Accounted pending resolving most before)
    (adds : Adds most before after) : Accounted pending resolving most after where
  settled := fun name known => by
    rcases adds.mem_known known with old | registered
    · rcases accounted.settled name old with left | registered | under
      · exact .inl left
      · exact .inr (.inl (adds.entries name registered))
      · exact .inr (.inr under)
    · exact .inr (.inl registered)
  shallow := fun name left held known => by
    rcases adds.known name held known with old | ⟨deep, -⟩
    · exact accounted.shallow name left held old
    · exact deep

theorem Accounted.enter (accounted : Accounted pending resolving most before) (name : String) :
    Accounted pending (name :: resolving) most before where
  settled := fun other known =>
    (accounted.settled other known).imp_right (·.imp_right (List.mem_cons_of_mem name))
  shallow := accounted.shallow

/-- A schema that is adopted is about to be entered. -/
theorem Accounted.adopt (accounted : Accounted pending resolving most before) {name : String}
    {added : Classified} (deep : added.definition.toJson.depth ≤ most) :
    Accounted pending (name :: resolving) most (before.adopt name added) where
  settled := fun other known => by
    rw [(adopt_known name added).2]
    rcases mem_names_adopt.mp known with rfl | old
    · exact .inr (.inr List.mem_cons_self)
    · exact (accounted.enter name).settled other old
  shallow := fun other left held known => by
    rcases find_adopt known with old | ⟨-, rfl⟩
    · exact accounted.shallow other left held old
    · exact deep

end

/-! ## Computations that end -/

/-- A run that is refused, or adds only what is nested at most so many levels deep. -/
def EndsFrom {α : Type} (most : Nat) (action : Compile α) (before : Workspace) : Prop :=
  match action.run before with
  | .error error => Rejection error
  | .ok (_, after) => Adds most before after

/-- A computation that ends like this wherever names are accounted for. -/
def Ends {α : Type} (pending resolving : List String) (most : Nat) (action : Compile α) : Prop :=
  ∀ before, Accounted pending resolving most before → EndsFrom most action before

section

variable {α β : Type} {most : Nat} {action : Compile α} {before after : Workspace}

theorem EndsFrom.rejection (ends : EndsFrom most action before) {error : Error}
    (ran : action.run before = .error error) : Rejection error := by
  unfold EndsFrom at ends
  rw [ran] at ends
  exact ends

theorem EndsFrom.adds (ends : EndsFrom most action before) {result : α}
    (ran : action.run before = .ok (result, after)) : Adds most before after := by
  unfold EndsFrom at ends
  rw [ran] at ends
  exact ends

theorem EndsFrom.intro
    (rejection : ∀ error, action.run before = .error error → Rejection error)
    (adds : ∀ result after, action.run before = .ok (result, after) → Adds most before after) :
    EndsFrom most action before := by
  unfold EndsFrom
  cases ran : action.run before with
  | error error => exact rejection error ran
  | ok outcome => exact adds outcome.1 outcome.2 ran

theorem EndsFrom.bind {first : Compile α} {next : α → Compile β}
    (earlier : EndsFrom most first before)
    (later : ∀ value between, first.run before = .ok (value, between) →
      EndsFrom most (next value) between) : EndsFrom most (first >>= next) before := by
  refine .intro (fun error ran => ?_) fun result after ran => ?_
  · rcases run_bind_error.mp ran with failed | ⟨value, between, firstRan, failed⟩
    · exact earlier.rejection failed
    · exact (later value between firstRan).rejection failed
  · obtain ⟨value, between, firstRan, nextRan⟩ := run_bind_ok.mp ran
    exact (earlier.adds firstRan).trans ((later value between firstRan).adds nextRan)

/-- What a schema says is read before the next step. -/
theorem EndsFrom.lift {read : Except Error α} {next : α → Compile β}
    (rejection : ∀ error, read = .error error → Rejection error)
    (later : ∀ value, read = .ok value → EndsFrom most (next value) before) :
    EndsFrom most (liftM read >>= next) before := by
  cases found : read with
  | error error => exact rejection error found
  | ok value => exact later value found

theorem EndsFrom.get {next : Workspace → Compile β} (later : EndsFrom most (next before) before) :
    EndsFrom most (get >>= next) before :=
  later

end

namespace Ends

variable {pending resolving : List String} {most : Nat} {α β : Type}

protected theorem pure (value : α) : Ends pending resolving most (pure value) :=
  fun before _ => .refl before

protected theorem throw {error : Error} (rejection : Rejection error) :
    Ends pending resolving most (throw error : Compile α) :=
  fun _ _ => rejection

protected theorem modify {change : Workspace → Workspace}
    (adds : ∀ workspace, Adds most workspace (change workspace)) :
    Ends pending resolving most (modify change) :=
  fun before _ => adds before

protected theorem bind {first : Compile α} {next : α → Compile β}
    (earlier : Ends pending resolving most first)
    (later : ∀ value, Ends pending resolving most (next value)) :
    Ends pending resolving most (first >>= next) :=
  fun before accounted => .bind (earlier before accounted) fun value between ran =>
    later value between (accounted.advance ((earlier before accounted).adds ran))

protected theorem lift {read : Except Error α} {next : α → Compile β}
    (rejection : ∀ error, read = .error error → Rejection error)
    (later : ∀ value, read = .ok value → Ends pending resolving most (next value)) :
    Ends pending resolving most (liftM read >>= next) :=
  fun before accounted => .lift rejection fun value found => later value found before accounted

protected theorem read {read : Except Error α}
    (rejection : ∀ error, read = .error error → Rejection error) :
    Ends pending resolving most (liftM read : Compile α) := by
  cases found : read with
  | error error => exact fun _ _ => rejection error found
  | ok value => exact .pure value

protected theorem get {next : Workspace → Compile β}
    (later : ∀ workspace, Ends pending resolving most (next workspace)) :
    Ends pending resolving most (get >>= next) :=
  fun before accounted => later before before accounted

protected theorem discard {action : Compile α} (ends : Ends pending resolving most action) :
    Ends pending resolving most (discard action) := by
  intro before accounted
  refine .intro (fun error ran => ?_) fun result after ran => ?_
  · exact (ends before accounted).rejection (run_discard_error.mp ran)
  · obtain ⟨value, ran⟩ := run_discard_ok.mp ran
    exact (ends before accounted).adds ran

protected theorem mapM {step : α → Compile β} {items : List α}
    (each : ∀ item ∈ items, Ends pending resolving most (step item)) :
    Ends pending resolving most (items.mapM step) := by
  induction items with
  | nil => exact .pure []
  | cons item rest ih =>
    rw [List.mapM_cons]
    refine .bind (each item List.mem_cons_self) fun result => ?_
    exact .bind (ih fun other member => each other (List.mem_cons_of_mem item member))
      fun results => .pure _

protected theorem forM {step : α → Compile Unit} {items : List α}
    (each : ∀ item ∈ items, Ends pending resolving most (step item)) :
    Ends pending resolving most (items.forM step) := by
  induction items with
  | nil => exact .pure ()
  | cons item rest ih =>
    exact .bind (each item List.mem_cons_self) fun _ =>
      ih fun other member => each other (List.mem_cons_of_mem item member)

end Ends

end TypedSchema.Compile
