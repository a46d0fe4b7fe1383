import Mathlib.Data.List.Forall2

/-!
Computations that may fail, and what follows when they do not.
-/

namespace TypedSchema.Outcomes

variable {ε ζ α β : Type}

theorem bind_ok {first : Except ε α} {next : α → Except ε β} {result : β} :
    first >>= next = .ok result ↔ ∃ value, first = .ok value ∧ next value = .ok result := by
  cases first with
  | error error =>
    constructor
    · intro ran
      cases ran
    · rintro ⟨value, ran, -⟩
      cases ran
  | ok value =>
    constructor
    · intro ran
      exact ⟨value, rfl, ran⟩
    · rintro ⟨value, ran, later⟩
      cases ran
      exact later

theorem bind_error {first : Except ε α} {next : α → Except ε β} {error : ε} :
    first >>= next = .error error ↔
      first = .error error ∨ ∃ value, first = .ok value ∧ next value = .error error := by
  cases first with
  | error thrown =>
    constructor
    · intro ran
      cases ran
      exact .inl rfl
    · rintro (⟨⟨⟩⟩ | ⟨value, ran, -⟩)
      · rfl
      · cases ran
  | ok value =>
    constructor
    · intro ran
      exact .inr ⟨value, rfl, ran⟩
    · rintro (ran | ⟨value, ran, later⟩)
      · cases ran
      · cases ran
        exact later

theorem mapError_ok {f : ε → ζ} {outcome : Except ε α} {result : α} :
    outcome.mapError f = .ok result ↔ outcome = .ok result := by
  cases outcome <;> simp [Except.mapError]

theorem toBool_iff {outcome : Except ε α} :
    outcome.toBool = true ↔ ∃ value, outcome = .ok value := by
  cases outcome <;> simp [Except.toBool]

theorem toOption_iff {outcome : Except ε α} {value : α} :
    outcome.toOption = some value ↔ outcome = .ok value := by
  cases outcome <;> simp [Except.toOption]

theorem toOption_none {outcome : Except ε α} :
    outcome.toOption = none ↔ ∃ error, outcome = .error error := by
  cases outcome <;> simp [Except.toOption]

/-- What is told of errors does not matter to what is given. -/
theorem toOption_of_mapError {f : ε → ζ} {first second : Except ε α}
    (same : first.mapError f = second.mapError f) : first.toOption = second.toOption := by
  cases first <;> cases second <;> simp_all [Except.mapError, Except.toOption]

/-- Outcomes that give the same, if anything, both fail or both give it. -/
theorem toOption_eq {first : Except ε α} {second : Except ζ α}
    (same : first.toOption = second.toOption) :
    (∃ error cause, first = .error error ∧ second = .error cause) ∨
      ∃ value, first = .ok value ∧ second = .ok value := by
  cases first with
  | error error =>
    cases second with
    | error cause => exact .inl ⟨error, cause, rfl, rfl⟩
    | ok value => cases same
  | ok value => exact .inr ⟨value, rfl, toOption_iff.mp same.symm⟩

theorem toOption_bind {first : Except ε α} {second : Except ζ α} {next : α → Except ε β}
    {further : α → Except ζ β} (earlier : first.toOption = second.toOption)
    (later : ∀ value, (next value).toOption = (further value).toOption) :
    (first >>= next).toOption = (second >>= further).toOption := by
  rcases toOption_eq earlier with ⟨error, cause, rfl, rfl⟩ | ⟨value, rfl, rfl⟩
  · rfl
  · exact later value

/-- Outcomes that are the same up to what is told of errors fail alike or give the same. -/
theorem mapError_eq {f : ε → ζ} {first second : Except ε α}
    (same : first.mapError f = second.mapError f) :
    (∃ error cause, first = .error error ∧ second = .error cause ∧ f error = f cause) ∨
      ∃ value, first = .ok value ∧ second = .ok value := by
  cases first with
  | error error =>
    cases second with
    | error cause => exact .inl ⟨error, cause, rfl, rfl, Except.error.inj same⟩
    | ok value => cases same
  | ok value =>
    cases second with
    | error cause => cases same
    | ok other =>
      cases same
      exact .inr ⟨value, rfl, rfl⟩

/-- Results without errors are the same, whatever is told of errors. -/
theorem map_mapError_ok {f : ε → ζ} {results : List (Except ε α)} {values : List α}
    (same : results.map (·.mapError f) = values.map .ok) : results = values.map .ok := by
  induction results generalizing values with
  | nil => cases values with
    | nil => rfl
    | cons value rest => cases same
  | cons result rest ih =>
    cases values with
    | nil => cases same
    | cons value others =>
      obtain ⟨first, later⟩ := List.cons.inj same
      rw [mapError_ok.mp first, ih later, List.map_cons]

/-- The results of a list of actions, each from its own item. -/
theorem mapM_ok {step : α → Except ε β} {items : List α} {results : List β}
    (ran : items.mapM step = .ok results) :
    List.Forall₂ (fun item result => step item = .ok result) items results := by
  induction items generalizing results with
  | nil =>
    cases ran
    exact .nil
  | cons item rest ih =>
    rw [List.mapM_cons, bind_ok] at ran
    obtain ⟨result, first, ran⟩ := ran
    obtain ⟨remaining, others, last⟩ := bind_ok.mp ran
    cases last
    exact .cons first (ih others)

/-- A list of actions fails with an error of one of its items. -/
theorem mapM_error {step : α → Except ε β} {items : List α} {error : ε}
    (ran : items.mapM step = .error error) : ∃ item ∈ items, step item = .error error := by
  induction items with
  | nil => cases ran
  | cons item rest ih =>
    rw [List.mapM_cons, bind_error] at ran
    rcases ran with first | ⟨result, -, ran⟩
    · exact ⟨item, List.mem_cons_self, first⟩
    · rcases bind_error.mp ran with others | ⟨results, -, ⟨⟩⟩
      obtain ⟨later, member, failed⟩ := ih others
      exact ⟨later, List.mem_cons_of_mem _ member, failed⟩

end TypedSchema.Outcomes
