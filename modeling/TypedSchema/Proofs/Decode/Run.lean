import TypedSchema.Decode.Cast
import TypedSchema.Proofs.Fields
import TypedSchema.Proofs.Naming.Escape

/-!
Runs of computations on data. A run gives a result and the special names after it; whatever the
result is, the special names have only grown, by names that conversion leaves alone.
-/

namespace TypedSchema

namespace NameTable

/-- Special names were only added, and only such as conversion leaves alone. -/
structure Grows (before after : NameTable) : Prop where
  kept : ∀ type name, name ∈ before.of type → name ∈ after.of type
  fresh : ∀ type name, name ∈ after.of type → name ∈ before.of type ∨ Naming.Escaped name
  covered : ∀ type, type ∈ Fields.names before → type ∈ Fields.names after

namespace Grows

theorem refl (names : NameTable) : Grows names names :=
  ⟨fun _ _ => id, fun _ _ => Or.inl, fun _ => id⟩

theorem trans {first second third : NameTable} (earlier : Grows first second)
    (later : Grows second third) : Grows first third where
  kept := fun type name member => later.kept type name (earlier.kept type name member)
  fresh := fun type name member => by
    rcases later.fresh type name member with held | escaped
    · exact earlier.fresh type name held
    · exact .inr escaped
  covered := fun type member => later.covered type (earlier.covered type member)

end Grows

/-- Every type has special names that only conversion has put there. -/
def Sound (names : NameTable) : Prop :=
  ∀ type, Naming.Sound (names.of type)

theorem Sound.grow {before after : NameTable} (sound : Sound before) (grows : Grows before after) :
    Sound after := by
  intro type name member
  rcases grows.fresh type name member with held | escaped
  · exact sound type name held
  · exact escaped

theorem of_insert (names : NameTable) (type other : String) (special : SpecialNames) :
    NameTable.of (Fields.insert names type special) other =
      if other = type then special else names.of other := by
  simp only [NameTable.of, Fields.get?_insert]
  split <;> rfl

end NameTable

namespace Decode

open NameTable (Grows)

variable {ε ζ α β : Type}

/-- Computations that may fail in any way. -/
abbrev Run (ε α : Type) := ExceptT ε (StateM NameTable) α

/-! ## Single steps -/

@[simp] theorem outcome_eq_iff {result other : Except ε α} {names after : NameTable} :
    @Eq (Id (Except ε α × NameTable)) (result, names) (other, after) ↔
      result = other ∧ names = after := by
  constructor
  · intro equal
    exact ⟨congrArg Prod.fst equal, congrArg Prod.snd equal⟩
  · rintro ⟨rfl, rfl⟩
    rfl

@[simp] theorem run_pure (value : α) (names : NameTable) :
    (pure value : Run ε α).run names = (.ok value, names) := rfl

@[simp] theorem run_throw (error : ε) (names : NameTable) :
    (throw error : Run ε α).run names = (.error error, names) := rfl

@[simp] theorem run_get (names : NameTable) :
    (get : Run ε NameTable).run names = (.ok names, names) := rfl

@[simp] theorem run_lift (action : StateM NameTable α) (names : NameTable) :
    (liftM action : Run ε α).run names = (.ok (action names).1, (action names).2) := rfl

@[simp] theorem run_adapt (f : ε → ζ) (action : Run ε α) (names : NameTable) :
    (ExceptT.adapt f action).run names =
      ((action.run names).1.mapError f, (action.run names).2) := rfl

@[simp] theorem run_except (result : Except ε α) (names : NameTable) :
    (liftM result : Run ε α).run names = (result, names) := by
  cases result <;> rfl

/-- What is already there need not be looked up. -/
theorem except_bind (value : α) (next : α → Run ε β) :
    ((liftM (Except.ok value : Except ε α) : Run ε α) >>= next) = next value := rfl

theorem run_bind (first : Run ε α) (next : α → Run ε β) (names : NameTable) :
    (first >>= next).run names =
      match first.run names with
      | (.ok value, names) => (next value).run names
      | (.error error, names) => (.error error, names) := by
  show (match first.run names with | (result, later) => ExceptT.bindCont next result later) = _
  rcases first.run names with ⟨_ | _, _⟩ <;> rfl

/-- Results that are given leave some special names. -/
theorem run_fst_ok {action : Run ε α} {names : NameTable} {value : α} :
    (action.run names).1 = .ok value ↔ ∃ after, action.run names = (.ok value, after) := by
  constructor
  · intro given
    exact ⟨_, Prod.ext given rfl⟩
  · rintro ⟨after, ran⟩
    rw [ran]

theorem run_bind_of_error {first : Run ε α} {next : α → Run ε β} {names : NameTable} {error : ε}
    (failed : (first.run names).1 = .error error) :
    (first >>= next).run names = (.error error, (first.run names).2) := by
  rw [run_bind]
  rcases ran : first.run names with ⟨_ | _, _⟩ <;> simp_all

theorem run_bind_of_ok {first : Run ε α} {next : α → Run ε β} {names : NameTable} {value : α}
    (given : (first.run names).1 = .ok value) :
    (first >>= next).run names = (next value).run (first.run names).2 := by
  rw [run_bind]
  rcases ran : first.run names with ⟨_ | _, _⟩ <;> simp_all

/-- A run of two steps that succeeds is a run of each that succeeds. -/
theorem run_bind_ok {first : Run ε α} {next : α → Run ε β} {names after : NameTable} {result : β} :
    (first >>= next).run names = (.ok result, after) ↔
      ∃ value between, first.run names = (.ok value, between) ∧
        (next value).run between = (.ok result, after) := by
  rw [run_bind]
  rcases first.run names with ⟨_ | value, between⟩
  · simp
  · simp

/-- Where something is looked up first, a run succeeds as it does with what is found. -/
theorem run_except_bind_ok {found : Except ε α} {next : α → Run ε β} {names after : NameTable}
    {result : β} :
    ((liftM found : Run ε α) >>= next).run names = (.ok result, after) ↔
      ∃ value, found = .ok value ∧ (next value).run names = (.ok result, after) := by
  rw [run_bind, run_except]
  cases found with
  | error => simp
  | ok value => simp

/-- What two steps give when the special names do not matter. -/
theorem gives_bind {first : Run ε α} {next : α → Run ε β} {names : NameTable} {result : β} :
    ((first >>= next).run names).1 = .ok result ↔ ∃ value, (first.run names).1 = .ok value ∧
      ((next value).run (first.run names).2).1 = .ok result := by
  rw [run_bind]
  rcases first.run names with ⟨_ | value, after⟩
  · simp
  · simp

theorem gives_adapt {f : ε → ζ} {action : Run ε α} {names : NameTable} {result : α} :
    ((ExceptT.adapt f action).run names).1 = .ok result ↔ (action.run names).1 = .ok result := by
  rw [run_adapt]
  rcases action.run names with ⟨_ | _, _⟩ <;> simp [Except.mapError]

theorem run_adapt_ok {f : ε → ζ} {action : Run ε α} {names after : NameTable} {value : α} :
    (ExceptT.adapt f action).run names = (.ok value, after) ↔
      action.run names = (.ok value, after) := by
  rw [run_adapt]
  rcases action.run names with ⟨_ | _, _⟩ <;> simp [Except.mapError]

/-- A run of two steps that fails does so in the first step, or in the second after the first. -/
theorem run_bind_error {first : Run ε α} {next : α → Run ε β} {names after : NameTable}
    {error : ε} :
    (first >>= next).run names = (.error error, after) ↔
      first.run names = (.error error, after) ∨
        ∃ value between, first.run names = (.ok value, between) ∧
          (next value).run between = (.error error, after) := by
  rw [run_bind]
  rcases first.run names with ⟨_ | value, between⟩
  · simp
  · simp

theorem run_adapt_error {f : ε → ζ} {action : Run ε α} {names after : NameTable} {error : ζ} :
    (ExceptT.adapt f action).run names = (.error error, after) ↔
      ∃ cause, action.run names = (.error cause, after) ∧ f cause = error := by
  rw [run_adapt]
  rcases action.run names with ⟨cause | _, _⟩
  · simp [Except.mapError, and_comm]
  · simp [Except.mapError]

/-- A run whose failure is handed on as a value. -/
theorem run_attempt_ok {action : Run ε α} {names after : NameTable} {outcome : Except ε α} :
    (liftM action.run : Run ζ (Except ε α)).run names = (.ok outcome, after) ↔
      action.run names = (outcome, after) := by
  rw [run_lift]
  rcases action.run names with ⟨result, later⟩
  simp

/-! ## Growth -/

/-- A computation that only adds special names, whatever its result is. -/
structure Growing (action : Run ε α) : Prop where
  grows : ∀ names, Grows names (action.run names).2

namespace Growing

theorem of_run {action : Run ε α} (growing : Growing action) {names after : NameTable}
    {result : Except ε α} (ran : action.run names = (result, after)) : Grows names after := by
  have grows := growing.grows names
  rwa [ran] at grows

theorem pure (value : α) : Growing (Pure.pure value : Run ε α) := ⟨Grows.refl⟩

theorem throw (error : ε) : Growing (MonadExcept.throw error : Run ε α) := ⟨Grows.refl⟩

theorem get : Growing (MonadState.get : Run ε NameTable) := ⟨Grows.refl⟩

theorem except (result : Except ε α) : Growing (liftM result : Run ε α) := by
  constructor
  intro names
  rw [run_except]
  exact Grows.refl names

theorem lift {action : StateM NameTable α} (grows : ∀ names, Grows names (action names).2) :
    Growing (liftM action : Run ε α) := ⟨grows⟩

theorem bind {first : Run ε α} {next : α → Run ε β} (earlier : Growing first)
    (later : ∀ value, Growing (next value)) : Growing (first >>= next) := by
  constructor
  intro names
  have start := earlier.grows names
  rw [run_bind]
  rcases ran : first.run names with ⟨_ | value, between⟩
  · rw [ran] at start
    exact start
  · rw [ran] at start
    exact start.trans ((later value).grows between)

theorem adapt {action : Run ε α} (growing : Growing action) (f : ε → ζ) :
    Growing (ExceptT.adapt f action) := ⟨growing.grows⟩

theorem run {action : Run ε α} (growing : Growing action) :
    Growing (liftM action.run : Run ζ (Except ε α)) := ⟨growing.grows⟩

theorem foldlM {step : β → α → Run ε β} (growing : ∀ sofar item, Growing (step sofar item))
    (items : List α) (sofar : β) : Growing (items.foldlM step sofar) := by
  induction items generalizing sofar with
  | nil => exact .pure sofar
  | cons item rest ih =>
    rw [List.foldlM_cons]
    exact .bind (growing sofar item) ih

/-- Steps taken in order fail at one of them. -/
theorem foldlM_error {step : β → α → Run ε β} (growing : ∀ sofar item, Growing (step sofar item))
    {items : List α} {sofar : β} {names after : NameTable} {error : ε}
    (ran : (items.foldlM step sofar).run names = (.error error, after)) :
    ∃ item ∈ items, ∃ reached between, Grows names between ∧
      (step reached item).run between = (.error error, after) := by
  induction items generalizing sofar names with
  | nil => cases ran
  | cons item rest ih =>
    rw [List.foldlM_cons, run_bind_error] at ran
    cases ran with
    | inl failed => exact ⟨item, List.mem_cons_self, sofar, names, .refl names, failed⟩
    | inr later =>
      obtain ⟨next, between, first, ran⟩ := later
      obtain ⟨other, member, reached, last, grows, failed⟩ := ih ran
      have earlier := (growing sofar item).of_run first
      exact ⟨other, List.mem_cons_of_mem _ member, reached, last, earlier.trans grows, failed⟩

end Growing

end Decode

end TypedSchema
