import TypedSchema.Compile.Workspace
import TypedSchema.Proofs.Outcomes

/-!
Runs of a compilation: a run of two steps is a run of each, and a run over a list is a run for each
of its items in turn. A run that fails does so in one of its steps, after those before it.
-/

namespace TypedSchema.Compile

/-- Computations that change a state and may fail. -/
abbrev Stateful (σ : Type) := StateT σ (Except Error)

variable {σ α β : Type} {before after : σ}

/-! ## Single steps -/

theorem run_pure_ok {value result : α} :
    (pure value : Stateful σ α).run before = .ok (result, after) ↔
      result = value ∧ after = before := by
  constructor
  · intro ran
    cases ran
    exact ⟨rfl, rfl⟩
  · rintro ⟨rfl, rfl⟩
    rfl

theorem run_throw_ok {error : Error} {result : α} :
    (throw error : Stateful σ α).run before = .ok (result, after) ↔ False := by
  constructor
  · intro ran
    cases ran
  · exact False.elim

theorem run_get_ok {result : σ} :
    (get : Stateful σ σ).run before = .ok (result, after) ↔
      result = before ∧ after = before := by
  constructor
  · intro ran
    cases ran
    exact ⟨rfl, rfl⟩
  · rintro ⟨rfl, rfl⟩
    rfl

theorem run_modify_ok {change : σ → σ} {result : Unit} :
    (modify change : Stateful σ Unit).run before = .ok (result, after) ↔ after = change before := by
  constructor
  · intro ran
    cases ran
    rfl
  · rintro rfl
    rfl

theorem run_lift_ok {action : Except Error α} {result : α} :
    (liftM action : Stateful σ α).run before = .ok (result, after) ↔
      action = .ok result ∧ after = before := by
  cases action with
  | error error =>
    constructor
    · intro ran
      cases ran
    · rintro ⟨impossible, -⟩
      cases impossible
  | ok value =>
    constructor
    · intro ran
      cases ran
      exact ⟨rfl, rfl⟩
    · rintro ⟨equal, rfl⟩
      cases equal
      rfl

theorem run_bind_ok {first : Stateful σ α} {next : α → Stateful σ β} {result : β} :
    (first >>= next).run before = .ok (result, after) ↔
      ∃ value between, first.run before = .ok (value, between) ∧
        (next value).run between = .ok (result, after) := by
  rw [StateT.run_bind]
  cases first.run before with
  | error error =>
    constructor
    · intro ran
      cases ran
    · rintro ⟨value, between, ran, -⟩
      cases ran
  | ok outcome =>
    obtain ⟨value, between⟩ := outcome
    constructor
    · intro ran
      exact ⟨value, between, rfl, ran⟩
    · rintro ⟨value, between, ran, later⟩
      cases ran
      exact later

theorem run_discard_ok {action : Stateful σ α} {result : Unit} :
    (discard action).run before = .ok (result, after) ↔
      ∃ value, action.run before = .ok (value, after) := by
  have unfolded : (discard action).run before =
      (action.run before >>= fun outcome => pure ((), outcome.2)) := rfl
  rw [unfolded]
  cases action.run before with
  | error error =>
    constructor
    · intro ran
      cases ran
    · rintro ⟨value, ran⟩
      cases ran
  | ok outcome =>
    constructor
    · intro ran
      cases ran
      exact ⟨outcome.1, rfl⟩
    · rintro ⟨value, ran⟩
      cases ran
      rfl

/-! ## Single steps that fail -/

section

variable {error : Error}

theorem run_pure_error {value : α} :
    (pure value : Stateful σ α).run before = .error error ↔ False := by
  constructor
  · intro ran
    cases ran
  · exact False.elim

theorem run_throw_error {thrown : Error} :
    (throw thrown : Stateful σ α).run before = .error error ↔ error = thrown := by
  constructor
  · intro ran
    cases ran
    rfl
  · rintro rfl
    rfl

theorem run_get_error : (get : Stateful σ σ).run before = .error error ↔ False := by
  constructor
  · intro ran
    cases ran
  · exact False.elim

theorem run_modify_error {change : σ → σ} :
    (modify change : Stateful σ Unit).run before = .error error ↔ False := by
  constructor
  · intro ran
    cases ran
  · exact False.elim

theorem run_lift_error {action : Except Error α} :
    (liftM action : Stateful σ α).run before = .error error ↔ action = .error error := by
  cases action with
  | error thrown =>
    constructor
    · intro ran
      cases ran
      rfl
    · rintro ⟨⟩
      rfl
  | ok value =>
    constructor
    · intro ran
      cases ran
    · intro impossible
      cases impossible

theorem run_bind_error {first : Stateful σ α} {next : α → Stateful σ β} :
    (first >>= next).run before = .error error ↔
      first.run before = .error error ∨
        ∃ value between, first.run before = .ok (value, between) ∧
          (next value).run between = .error error := by
  rw [StateT.run_bind]
  cases first.run before with
  | error thrown =>
    constructor
    · intro ran
      cases ran
      exact .inl rfl
    · rintro (⟨⟨⟩⟩ | ⟨value, between, ran, -⟩)
      · rfl
      · cases ran
  | ok outcome =>
    obtain ⟨value, between⟩ := outcome
    constructor
    · intro ran
      exact .inr ⟨value, between, rfl, ran⟩
    · rintro (ran | ⟨value, between, ran, later⟩)
      · cases ran
      · cases ran
        exact later

theorem run_discard_error {action : Stateful σ α} :
    (discard action).run before = .error error ↔ action.run before = .error error := by
  have unfolded : (discard action).run before =
      (action.run before >>= fun outcome => pure ((), outcome.2)) := rfl
  rw [unfolded]
  cases action.run before with
  | error thrown =>
    constructor
    · intro ran
      cases ran
      rfl
    · rintro ⟨⟩
      rfl
  | ok outcome =>
    constructor
    · intro ran
      cases ran
    · intro ran
      cases ran

end

/-! ## Lists -/

/-- Runs for the items of a list, one after the other. -/
inductive Runs (step : α → Stateful σ β) : List α → σ → List β → σ → Prop where
  | nil (workspace : σ) : Runs step [] workspace [] workspace
  | cons {item : α} {rest : List α} {result : β} {results : List β}
    {before between after : σ} (first : (step item).run before = .ok (result, between))
    (later : Runs step rest between results after) :
    Runs step (item :: rest) before (result :: results) after

theorem run_mapM_ok {step : α → Stateful σ β} {items : List α} {results : List β}
    (ran : (items.mapM step).run before = .ok (results, after)) :
    Runs step items before results after := by
  induction items generalizing before results with
  | nil =>
    obtain ⟨rfl, rfl⟩ := run_pure_ok.mp ran
    exact .nil after
  | cons item rest ih =>
    rw [List.mapM_cons] at ran
    obtain ⟨first, between, firstRan, ran⟩ := run_bind_ok.mp ran
    obtain ⟨others, last, restRan, ran⟩ := run_bind_ok.mp ran
    obtain ⟨rfl, rfl⟩ := run_pure_ok.mp ran
    exact .cons firstRan (ih restRan)

theorem run_forM_ok {step : α → Stateful σ Unit} {items : List α} {result : Unit}
    (ran : (items.forM step).run before = .ok (result, after)) :
    ∃ results, Runs step items before results after := by
  induction items generalizing before with
  | nil =>
    obtain ⟨-, rfl⟩ := run_pure_ok.mp ran
    exact ⟨[], .nil after⟩
  | cons item rest ih =>
    obtain ⟨first, between, firstRan, ran⟩ := run_bind_ok.mp ran
    obtain ⟨results, later⟩ := ih ran
    exact ⟨first :: results, .cons firstRan later⟩

/-- Runs for the items of a list up to one whose run fails. -/
def Breaks (step : α → Stateful σ β) (items : List α) (before : σ) (error : Error) : Prop :=
  ∃ done item rest results between, items = done ++ item :: rest ∧
    Runs step done before results between ∧ (step item).run between = .error error

theorem Breaks.cons {step : α → Stateful σ β} {item : α} {rest : List α} {result : β}
    {between : σ} {error : Error} (first : (step item).run before = .ok (result, between))
    (breaks : Breaks step rest between error) : Breaks step (item :: rest) before error := by
  obtain ⟨done, broken, later, results, last, rfl, runs, failed⟩ := breaks
  exact ⟨item :: done, broken, later, result :: results, last, rfl, .cons first runs, failed⟩

theorem run_mapM_error {step : α → Stateful σ β} {items : List α} {error : Error}
    (ran : (items.mapM step).run before = .error error) : Breaks step items before error := by
  induction items generalizing before with
  | nil => exact (run_pure_error.mp ran).elim
  | cons item rest ih =>
    rw [List.mapM_cons, run_bind_error] at ran
    rcases ran with failed | ⟨first, between, firstRan, ran⟩
    · exact ⟨[], item, rest, [], before, rfl, .nil before, failed⟩
    · rcases run_bind_error.mp ran with failed | ⟨others, last, -, ran⟩
      · exact .cons firstRan (ih failed)
      · exact (run_pure_error.mp ran).elim

theorem run_forM_error {step : α → Stateful σ Unit} {items : List α} {error : Error}
    (ran : (items.forM step).run before = .error error) : Breaks step items before error := by
  induction items generalizing before with
  | nil => exact (run_pure_error.mp ran).elim
  | cons item rest ih =>
    rcases run_bind_error.mp ran with failed | ⟨first, between, firstRan, ran⟩
    · exact ⟨[], item, rest, [], before, rfl, .nil before, failed⟩
    · exact .cons firstRan (ih ran)

/-- What every step does to a workspace, a run over a list does. -/
theorem Runs.related {step : α → Stateful σ β} {items : List α} {results : List β}
    {relation : σ → σ → Prop} (refl : ∀ workspace, relation workspace workspace)
    (trans : ∀ {first second third}, relation first second → relation second third →
      relation first third)
    (each : ∀ item ∈ items, ∀ before result after,
      (step item).run before = .ok (result, after) → relation before after)
    (runs : Runs step items before results after) : relation before after := by
  induction runs with
  | nil workspace => exact refl workspace
  | cons first later ih =>
    exact trans (each _ List.mem_cons_self _ _ _ first)
      (ih fun item member => each item (List.mem_cons_of_mem _ member))

end TypedSchema.Compile
