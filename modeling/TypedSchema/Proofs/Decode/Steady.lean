import TypedSchema.Proofs.Decode.Casting
import TypedSchema.Proofs.Outcomes
import TypedSchema.Proofs.Values.Settled

/-!
Computations that do not notice which special names there are. Run from any two tables among those
that may come up, such a computation gives the same result, but for the place that an error names,
and adds the same special names. Filling and casting settled values are such computations.
-/

namespace TypedSchema

/-! ## Errors without their place -/

/-- The error wherever it arose. -/
def Error.unplaced : Error → Error
  | .type _ within fault => .type [] within fault
  | .key _ fault => .key [] fault
  | .value _ fault => .value [] fault
  | .encode _ fault => .encode [] fault
  | error => error

def Refusal.unplaced : Refusal → Refusal
  | .mismatch refused => .mismatch refused
  | .nested error => .nested error.unplaced

def Stopped.unplaced (stopped : Stopped) : Error :=
  stopped.error.unplaced

@[simp] theorem Error.unplaced_under (error : Error) (step : PathStep) :
    (error.under step).unplaced = error.unplaced := by
  cases error <;> rfl

@[simp] theorem Error.unplaced_withinType (error : Error) (type : String) :
    (error.withinType type).unplaced = error.unplaced.withinType type := by
  cases error with
  | type path within fault =>
    by_cases same : within.head? = some type <;> simp [withinType, unplaced, same]
  | _ => rfl

@[simp] theorem Refusal.unplaced_toError (refusal : Refusal) (describe : Mismatch → TypeFault) :
    (refusal.toError describe).unplaced = refusal.unplaced.toError describe := by
  cases refusal <;> rfl

namespace Decode

open NameTable (Grows)

variable {ε ζ η α β : Type}

/-! ## Computations -/

/-- Tables that may come up while data is decoded. Only conversion has put special names there, and
tables that it adds allowed names to may come up too. -/
structure Upward (near : NameTable → Prop) (allowed : String → Prop) : Prop where
  sound : ∀ names, near names → names.Sound
  grow : ∀ before after, near before → Grows before after →
    (∀ type name, name ∈ after.of type → name ∈ before.of type ∨ allowed name) → near after

theorem Upward.sound_tables (allowed : String → Prop) : Upward NameTable.Sound allowed :=
  ⟨fun _ => id, fun _ _ sound grows _ => sound.grow grows⟩

/-- Whatever table a computation runs from, the result is the same as far as errors are told apart,
and so are the special names that are added, which are allowed ones. -/
structure Steady (near : NameTable → Prop) (allowed : String → Prop) (erase : ε → ζ)
    (action : Run ε α) : Prop where
  grows : ∀ names, near names → Grows names (action.run names).2
  same : ∀ first second, near first → near second →
    (action.run first).1.mapError erase = (action.run second).1.mapError erase
  carried : ∀ first second, near first → near second → ∀ type name,
    name ∈ (action.run first).2.of type →
      name ∈ first.of type ∨ name ∈ (action.run second).2.of type
  keys : ∀ names, near names → ∀ type name,
    name ∈ (action.run names).2.of type → name ∈ names.of type ∨ allowed name

namespace Steady

variable {near : NameTable → Prop} {allowed : String → Prop} {erase : ε → ζ}

/-- A computation that leaves the table alone, with a result that does not depend on it. -/
theorem of_constant {action : Run ε α} {result : Except ε α}
    (constant : ∀ names, near names → action.run names = (result, names)) :
    Steady near allowed erase action where
  grows := fun names here => by
    rw [constant names here]
    exact .refl names
  same := fun first second here there => by rw [constant first here, constant second there]
  carried := fun first second here _ type name member => by
    rw [constant first here] at member
    exact .inl member
  keys := fun names here type name member => by
    rw [constant names here] at member
    exact .inl member

theorem pure (value : α) : Steady near allowed erase (Pure.pure value : Run ε α) :=
  of_constant fun _ _ => rfl

theorem throw (error : ε) : Steady near allowed erase (MonadExcept.throw error : Run ε α) :=
  of_constant fun _ _ => rfl

theorem except (result : Except ε α) : Steady near allowed erase (liftM result : Run ε α) :=
  of_constant fun names _ => run_except result names

theorem adapt {erased : η → ζ} {other : ε → β} {action : Run ε α}
    (inner : Steady near allowed other action) {f : ε → η}
    (each : ∀ error cause, other error = other cause → erased (f error) = erased (f cause)) :
    Steady near allowed erased (ExceptT.adapt f action) where
  grows := inner.grows
  same := by
    intro first second here there
    rw [run_adapt, run_adapt]
    rcases Outcomes.mapError_eq (inner.same first second here there) with
      ⟨error, cause, one, two, alike⟩ | ⟨value, one, two⟩
    · rw [one, two]
      exact congrArg Except.error (each error cause alike)
    · rw [one, two]
  carried := inner.carried
  keys := inner.keys

theorem gives_iff {action : Run ε α} (steady : Steady near allowed erase action)
    {first second : NameTable} (here : near first) (there : near second) {value : α} :
    (action.run first).1 = .ok value ↔ (action.run second).1 = .ok value := by
  rw [← Outcomes.mapError_ok, steady.same first second here there, Outcomes.mapError_ok]

/-- What runs as a steady computation does, as far as errors are told apart, is steady. -/
theorem congr {action other : Run ε α} (steady : Steady near allowed erase other)
    (results : ∀ names, (action.run names).1.mapError erase = (other.run names).1.mapError erase)
    (tables : ∀ names, (action.run names).2 = (other.run names).2) :
    Steady near allowed erase action where
  grows := fun names here => tables names ▸ steady.grows names here
  same := fun first second here there => by
    rw [results, results]
    exact steady.same first second here there
  carried := fun first second here there type name => by
    rw [tables, tables]
    exact steady.carried first second here there type name
  keys := fun names here type name => by
    rw [tables]
    exact steady.keys names here type name

section

variable (upward : Upward near allowed)

include upward

theorem near_run {action : Run ε α} (steady : Steady near allowed erase action) {names : NameTable}
    (here : near names) : near (action.run names).2 :=
  upward.grow _ _ here (steady.grows names here) (steady.keys names here)

/-- Two steps are steady if the second one is, for whatever the first may give. -/
theorem bind {first : Run ε α} {next : α → Run ε β} (earlier : Steady near allowed erase first)
    (later : ∀ value names, near names → (first.run names).1 = .ok value →
      Steady near allowed erase (next value)) :
    Steady near allowed erase (first >>= next) where
  grows := by
    intro names here
    cases outcome : (first.run names).1 with
    | error error =>
      rw [run_bind_of_error outcome]
      exact earlier.grows names here
    | ok value =>
      rw [run_bind_of_ok outcome]
      exact (earlier.grows names here).trans
        ((later value names here outcome).grows _ (near_run upward earlier here))
  same := by
    intro left right here there
    rcases Outcomes.mapError_eq (earlier.same left right here there) with
      ⟨error, cause, one, two, alike⟩ | ⟨value, one, two⟩
    · rw [run_bind_of_error one, run_bind_of_error two]
      exact congrArg Except.error alike
    · rw [run_bind_of_ok one, run_bind_of_ok two]
      exact (later value left here one).same _ _ (near_run upward earlier here)
        (near_run upward earlier there)
  carried := by
    intro left right here there type name member
    rcases Outcomes.mapError_eq (earlier.same left right here there) with
      ⟨error, cause, one, two, -⟩ | ⟨value, one, two⟩
    · rw [run_bind_of_error one] at member
      rw [run_bind_of_error two]
      exact earlier.carried left right here there type name member
    · rw [run_bind_of_ok one] at member
      rw [run_bind_of_ok two]
      have second := later value left here one
      have between := near_run upward earlier there
      -- The second step keeps what the first one added, so nothing is lost on the way.
      rcases second.carried _ _ (near_run upward earlier here) between type name member with
        before | added
      · rcases earlier.carried left right here there type name before with held | kept
        · exact .inl held
        · exact .inr ((second.grows _ between).kept type name kept)
      · exact .inr added
  keys := by
    intro names here type name member
    cases outcome : (first.run names).1 with
    | error error =>
      rw [run_bind_of_error outcome] at member
      exact earlier.keys names here type name member
    | ok value =>
      rw [run_bind_of_ok outcome] at member
      have second := later value names here outcome
      rcases second.keys _ (near_run upward earlier here) type name member with before | new
      · exact earlier.keys names here type name before
      · exact .inr new

theorem foldlM {step : β → α → Run ε β} {items : List α}
    (each : ∀ item ∈ items, ∀ sofar, Steady near allowed erase (step sofar item)) (sofar : β) :
    Steady near allowed erase (items.foldlM step sofar) := by
  induction items generalizing sofar with
  | nil => exact .pure sofar
  | cons item rest ih =>
    rw [List.foldlM_cons]
    exact .bind upward (each item List.mem_cons_self sofar) fun next _ _ _ =>
      ih (fun other member => each other (List.mem_cons_of_mem _ member)) next

end

end Steady

/-! ## One after another -/

/-- Runs computations in order. The special names that one adds are there for the next. -/
def runAll (actions : List (Run ε α)) : StateM NameTable (List (Except ε α)) :=
  actions.mapM fun action => action.run

theorem runAll_cons (action : Run ε α) (rest : List (Run ε α)) (names : NameTable) :
    runAll (action :: rest) names =
      ((action.run names).1 :: (runAll rest (action.run names).2).1,
        (runAll rest (action.run names).2).2) := by
  rw [runAll, List.mapM_cons]
  rfl

section

variable {near : NameTable → Prop} {allowed : String → Prop} {erase : ε → ζ}
  (upward : Upward near allowed) {actions : List (Run ε α)}
  (each : ∀ action ∈ actions, Steady near allowed erase action) {start names : NameTable}
  (here : near names)

include upward each here

theorem runAll_grows : Grows names (runAll actions names).2 := by
  induction actions generalizing names with
  | nil => exact .refl names
  | cons action rest ih =>
    have first := each action List.mem_cons_self
    rw [runAll_cons]
    exact (first.grows names here).trans (ih
      (fun other member => each other (List.mem_cons_of_mem _ member))
      (first.near_run upward here))

/-- The results are those of each computation on its own. -/
theorem runAll_results (there : near start) :
    (runAll actions names).1.map (·.mapError erase) =
      actions.map fun action => (action.run start).1.mapError erase := by
  induction actions generalizing names with
  | nil => rfl
  | cons action rest ih =>
    have first := each action List.mem_cons_self
    rw [runAll_cons, List.map_cons, List.map_cons, first.same names start here there,
      ih (fun other member => each other (List.mem_cons_of_mem _ member))
        (first.near_run upward here)]

/-- The special names that are added are those that each computation adds on its own. -/
theorem mem_runAll (there : near start)
    (later : ∀ type name, name ∈ start.of type → name ∈ names.of type) {type name : String} :
    name ∈ (runAll actions names).2.of type ↔
      name ∈ names.of type ∨ ∃ action ∈ actions, name ∈ (action.run start).2.of type := by
  induction actions generalizing names with
  | nil => exact ⟨.inl, fun either => either.resolve_right nofun⟩
  | cons action rest ih =>
    have first := each action List.mem_cons_self
    have grows := first.grows names here
    -- By now other special names may be there, but the computation adds the same ones.
    have own : name ∈ (action.run names).2.of type ↔
        name ∈ names.of type ∨ name ∈ (action.run start).2.of type := by
      constructor
      · exact first.carried names start here there type name
      · rintro (held | added)
        · exact grows.kept type name held
        · rcases first.carried start names there here type name added with before | also
          · exact grows.kept type name (later type name before)
          · exact also
    rw [runAll_cons, ih (fun other member => each other (List.mem_cons_of_mem _ member))
      (first.near_run upward here) fun type name before =>
        grows.kept type name (later type name before), own]
    simp only [List.mem_cons, exists_eq_or_imp, or_assoc]

theorem runAll_keys {type name : String} (member : name ∈ (runAll actions names).2.of type) :
    name ∈ names.of type ∨ allowed name := by
  induction actions generalizing names with
  | nil => exact .inl member
  | cons action rest ih =>
    have first := each action List.mem_cons_self
    rw [runAll_cons] at member
    rcases ih (fun other listed => each other (List.mem_cons_of_mem _ listed))
      (first.near_run upward here) member with between | new
    · exact first.keys names here type name between
    · exact .inr new

end

end Decode

end TypedSchema
