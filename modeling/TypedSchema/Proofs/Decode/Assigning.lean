import TypedSchema.Proofs.Decode.SteadyCasts
import TypedSchema.Proofs.Registry.Reach

/-!
Assigning in any order. What each assignment gives does not depend on the others, so the same
assignments succeed together in any order and however often they are made. Where parents agree, the
leaves of a type make the assignments that its own signature would make.
-/

namespace TypedSchema

namespace Decode

variable {registry : Registry} {cast : Cast} {near : NameTable → Prop} {allowed : String → Prop}

/-! ## The same assignments -/

/-- Where parents agree, leaves assign what the type itself declares. -/
theorem mem_leaf_assignments (wellFormed : registry.WellFormed) (descends : registry.Descends)
    {depth : Nat} {name : String} {composite : Composite} (agree : registry.AncestorsAgree name)
    (present : Fields.get? registry.composites name = some composite) {found : List Signature}
    (held : leaves registry depth composite.initializer = some found) {bound : Bound}
    {step : Assignment} :
    step ∈ found.flatMap (·.assignments bound) ↔
      step ∈ composite.signature.assignments bound := by
  have own := (wellFormed.composites name composite present).2
  obtain ⟨table, catchAll⟩ := leaves_declare wellFormed present held
  rw [List.mem_flatMap]
  constructor
  · -- A leaf declares what the table has, whichever of the parents that is from.
    rintro ⟨leaf, member, assigned⟩
    have agrees := leaves_agree wellFormed descends agree present held member
    refine mem_assignments.mpr ?_
    rcases mem_assignments.mp assigned with
      ⟨param, listed, rfl⟩ | ⟨way, key, value, takes, extra, rfl⟩
    · obtain ⟨property, declared, type, caster⟩ := agrees.params param listed
      have named := (own.properties param.name property declared).name
      refine .inl ⟨property, ?_, ?_⟩
      · rw [own.params]
        exact Fields.value_mem (Fields.mem_of_get? declared)
      · simp only [Property.step, named, type, caster]
    · exact .inr ⟨way, key, value, own.catchAll.trans (agrees.catchAll way takes), extra, rfl⟩
  · -- What the table has is from the last leaf that declares it.
    intro assigned
    rcases mem_assignments.mp assigned with
      ⟨property, listed, rfl⟩ | ⟨way, key, value, takes, extra, rfl⟩
    · rw [own.params] at listed
      have declared := own.property_of_mem listed
      rw [table] at declared
      have among := (Fields.mem_insertAll (Fields.mem_of_get? declared)).resolve_right
        List.not_mem_nil
      obtain ⟨leaf, member, inner⟩ := List.mem_flatMap.mp among
      obtain ⟨param, declares, same⟩ := List.mem_map.mp inner
      have same : param = property := (Prod.mk.inj same).2
      exact ⟨leaf, member, mem_assignments.mpr (.inl ⟨property, same ▸ declares, rfl⟩)⟩
    · rw [own.catchAll, catchAll] at takes
      obtain ⟨leaf, member, leafTakes⟩ := List.mem_filterMap.mp (List.mem_of_getLast? takes)
      exact ⟨leaf, member, mem_assignments.mpr (.inr ⟨way, key, value, leafTakes, extra, rfl⟩)⟩

variable {holds : Value → Prop} {signature : Signature} {bound : Bound}

/-- What was bound is assigned, each attribute once. -/
theorem names_assignments_nodup (params : signature.DistinctParams)
    (binds : signature.Binds holds bound) :
    ((signature.assignments bound).map Assignment.name).Nodup := by
  rw [names_assignments]
  split
  · have distinct : (Fields.names bound.declared ++ Fields.names bound.extra).Nodup := by
      rw [Fields.names, Fields.names, ← List.map_append]
      exact binds.distinct params
    rwa [binds.names] at distinct
  · rwa [List.append_nil]

theorem assignments_hold (binds : signature.Binds holds bound) (null : holds .null)
    {step : Assignment} (member : step ∈ signature.assignments bound) : holds step.value := by
  rcases mem_assignments.mp member with ⟨param, -, rfl⟩ | ⟨_, name, value, -, extra, rfl⟩
  · rw [Property.step]
    cases given : Fields.get? bound.declared param.name with
    | none => exact null
    | some value => exact binds.values _ (Fields.mem_of_get? given)
  · exact binds.extra.values _ extra

/-! ## What they give -/

/-- What an assignment gives with these special names. -/
def Gives (registry : Registry) (cast : Cast) (names : NameTable) (step : Assignment)
    (value : Value) : Prop :=
  ((coerce registry cast step.name step.type step.caster step.value).run names).1 = .ok value

/-- Assignments that are steady. -/
def SteadySteps (registry : Registry) (cast : Cast) (near : NameTable → Prop)
    (allowed : String → Prop) (steps : List Assignment) : Prop :=
  ∀ step ∈ steps,
    SteadyRun near allowed (coerce registry cast step.name step.type step.caster step.value)

theorem gives_congr {step : Assignment}
    (steady : SteadyRun near allowed
      (coerce registry cast step.name step.type step.caster step.value))
    {first second : NameTable} (here : near first) (there : near second) {value : Value} :
    Gives registry cast first step value ↔ Gives registry cast second step value := by
  have same := steady.same first second here there
  rw [Gives, Gives, ← Outcomes.mapError_ok, same, Outcomes.mapError_ok]

section

variable (upward : Upward near allowed) {steps : List Assignment}
  (steady : SteadySteps registry cast near allowed steps) {start names : NameTable}
  (there : near start) (here : near names) {assigned : Fields Value}

include upward steady there here

/-- Assignments succeed one after another if each succeeds on its own. -/
theorem assignAll_succeeds :
    (∃ result, ((assignAll registry cast steps assigned).run names).1 = .ok result) ↔
      ∀ step ∈ steps, ∃ value, Gives registry cast start step value := by
  induction steps generalizing names assigned with
  | nil => exact ⟨fun _ => nofun, fun _ => ⟨assigned, rfl⟩⟩
  | cons step rest ih =>
    have first := steady step List.mem_cons_self
    have later : SteadySteps registry cast near allowed rest := fun other member =>
      steady other (List.mem_cons_of_mem _ member)
    rw [assignAll, List.forall_mem_cons]
    -- What the assignment gives here it gives from the start; the others go on from there.
    cases outcome : ((coerce registry cast step.name step.type step.caster step.value).run
      names).1 with
    | error error =>
      rw [run_bind_of_error outcome]
      constructor
      · rintro ⟨result, impossible⟩
        cases impossible
      · rintro ⟨⟨value, gives⟩, -⟩
        have own := (gives_congr first there here).mp gives
        cases outcome.symm.trans own
    | ok value =>
      rw [run_bind_of_ok outcome, ih later (first.near_run upward here)]
      have own : Gives registry cast start step value := (gives_congr first here there).mp outcome
      exact ⟨fun others => ⟨⟨value, own⟩, others⟩, fun all => all.2⟩

/-- An attribute that only one assignment is made to has what this gives. -/
theorem assignAll_gives {result : Fields Value}
    (ran : ((assignAll registry cast steps assigned).run names).1 = .ok result)
    {step : Assignment} (member : step ∈ steps)
    (alone : ∀ other ∈ steps, other.name = step.name → other = step) :
    ∃ value, Fields.get? result step.name = some value ∧
      Gives registry cast start step value := by
  induction steps generalizing names assigned with
  | nil => cases member
  | cons first rest ih =>
    have own := steady first List.mem_cons_self
    have later : SteadySteps registry cast near allowed rest := fun other listed =>
      steady other (List.mem_cons_of_mem _ listed)
    rw [assignAll] at ran
    cases outcome : ((coerce registry cast first.name first.type first.caster first.value).run
      names).1 with
    | error error =>
      rw [run_bind_of_error outcome] at ran
      cases ran
    | ok value =>
      rw [run_bind_of_ok outcome] at ran
      by_cases again : step ∈ rest
      · exact ih later (own.near_run upward here) ran again fun other listed =>
          alone other (List.mem_cons_of_mem _ listed)
      · have same : step = first := (List.mem_cons.mp member).resolve_right again
        subst same
        -- No later assignment is to this attribute, as it would be this one made again.
        have last : lastStep rest step.name = none := by
          rw [lastStep_eq_none_iff, List.mem_map]
          rintro ⟨other, listed, named⟩
          exact again (alone other (List.mem_cons_of_mem _ listed) named ▸ listed)
        refine ⟨value, ?_, (gives_congr own here there).mp outcome⟩
        obtain ⟨after, ran⟩ := run_fst_ok.mp ran
        rw [assignAll_get?_of_none ran last, Fields.get?_insert, if_pos rfl]

end

/-- The same assignments, in another order or made more often, succeed with the same attributes. -/
theorem assignAll_perm (upward : Upward near allowed) {steps others : List Assignment}
    (steady : SteadySteps registry cast near allowed steps)
    (same : ∀ step, step ∈ others ↔ step ∈ steps) (distinct : (steps.map Assignment.name).Nodup)
    {names : NameTable} (here : near names) :
    ((∃ result, ((assignAll registry cast others []).run names).1 = .ok result) ↔
      ∃ result, ((assignAll registry cast steps []).run names).1 = .ok result) ∧
    ∀ left right, ((assignAll registry cast others []).run names).1 = .ok left →
      ((assignAll registry cast steps []).run names).1 = .ok right → left.Perm right := by
  have othersSteady : SteadySteps registry cast near allowed others := fun step member =>
    steady step ((same step).mp member)
  refine ⟨?_, fun left right leftRan rightRan => ?_⟩
  · rw [assignAll_succeeds upward othersSteady here here,
      assignAll_succeeds upward steady here here]
    simp only [same]
  · have empty : Fields.Distinct ([] : Fields Value) := List.nodup_nil
    obtain ⟨leftAfter, leftWhole⟩ := run_fst_ok.mp leftRan
    obtain ⟨rightAfter, rightWhole⟩ := run_fst_ok.mp rightRan
    refine Fields.perm_of_get? (assignAll_distinct empty leftWhole)
      (assignAll_distinct empty rightWhole) fun name => ?_
    by_cases assigned : ∃ step ∈ steps, step.name = name
    · -- The one assignment to the attribute gives the same wherever it is made.
      obtain ⟨step, member, rfl⟩ := assigned
      have alone : ∀ other ∈ steps, other.name = step.name → other = step :=
        fun other listed named => List.inj_on_of_nodup_map distinct listed member named
      obtain ⟨value, found, gives⟩ := assignAll_gives upward othersSteady here here leftRan
        ((same step).mpr member) fun other listed => alone other ((same other).mp listed)
      obtain ⟨again, foundAgain, givesAgain⟩ :=
        assignAll_gives upward steady here here rightRan member alone
      rw [found, foundAgain, Except.ok.inj (gives.symm.trans givesAgain)]
    · have none : ∀ list : List Assignment, (∀ step, step ∈ list → step ∈ steps) →
          lastStep list name = none := by
        intro list within
        rw [lastStep_eq_none_iff, List.mem_map]
        rintro ⟨step, member, named⟩
        exact assigned ⟨step, within step member, named⟩
      rw [assignAll_get?_of_none leftWhole (none others fun step => (same step).mp),
        assignAll_get?_of_none rightWhole (none steps fun step => id)]

end Decode

end TypedSchema
