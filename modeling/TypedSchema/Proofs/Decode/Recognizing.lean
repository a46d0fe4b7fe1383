import TypedSchema.Proofs.Conformance
import TypedSchema.Proofs.Decode.Recasting

/-!
What casters recognize. Every caster has its own way to tell that a value needs no cast: scalars go
by their kind, enumerations by members and composite types by subtypes. A polymorph goes by the names
of its branches, which need not be the names of the types that the branches lead to.
-/

namespace TypedSchema

namespace Caster

mutual
/-- The casters that the branches of polymorphs lead to, past further polymorphs. -/
def choices : Caster → List Caster
  | .polymorph (.keyed _ branches) => choicesOfKeyed branches
  | .polymorph (.conditional conditions) => choicesOfConditions conditions
  | caster => [caster]

def choicesOfKeyed : List (String × Branch Caster) → List Caster
  | [] => []
  | (_, ⟨_, caster⟩) :: rest => choices caster ++ choicesOfKeyed rest

def choicesOfConditions : List (Condition Caster) → List Caster
  | [] => []
  | ⟨_, ⟨_, caster⟩⟩ :: rest => choices caster ++ choicesOfConditions rest
end

theorem choicesOfKeyed_eq (branches : List (String × Branch Caster)) :
    choicesOfKeyed branches = branches.flatMap fun entry => entry.2.caster.choices := by
  induction branches with
  | nil => rfl
  | cons entry rest ih => rw [choicesOfKeyed, ih, List.flatMap_cons]

theorem choicesOfConditions_eq (conditions : List (Condition Caster)) :
    choicesOfConditions conditions =
      conditions.flatMap fun condition => condition.branch.caster.choices := by
  induction conditions with
  | nil => rfl
  | cons condition rest ih => rw [choicesOfConditions, ih, List.flatMap_cons]

theorem mem_choices_polymorph {dispatcher : Dispatcher Caster} {caster : Caster} :
    caster ∈ (Caster.polymorph dispatcher).choices ↔
      ∃ branch ∈ dispatcher.branches, caster ∈ branch.caster.choices := by
  cases dispatcher with
  | keyed property branches =>
    rw [choices, choicesOfKeyed_eq, ← List.mem_flatMap, Dispatcher.branches, List.flatMap_map]
  | conditional conditions =>
    rw [choices, choicesOfConditions_eq, ← List.mem_flatMap, Dispatcher.branches,
      List.flatMap_map]

end Caster

namespace Registry

/-- Whether a value already is what a caster gives, as the caster tells. The maps among what a
polymorph gives are those that a branch leaves as they are. -/
def recognizes (registry : Registry) : Caster → Value → Bool
  | .identity, _ => true
  | .scalar type, value => conformsScalar type value
  | .list item, .list items => items.all fun value => recognizes registry item value
  | .enumeration _, .member _ => true
  | .composite name, .object type _ => registry.isSubtype type name
  | .polymorph dispatcher, .object type _ => dispatcher.targets.any (registry.isSubtype type)
  | .polymorph _, .map _ => true
  | _, _ => false

/-- Whether a dispatcher recognizes all that a caster, not itself a polymorph, makes of maps. -/
def takesBack (registry : Registry) (dispatcher : Dispatcher Caster) : Caster → Bool
  | .composite name => dispatcher.targets.any (registry.isSubtype name)
  | .enumeration _ => false
  | _ => true

/-- Whether all polymorphs of a caster recognize what their branches lead to. -/
def settles (registry : Registry) : Caster → Bool
  | .list item => settles registry item
  | .polymorph dispatcher =>
    (Caster.polymorph dispatcher).choices.all (registry.takesBack dispatcher)
  | _ => true

end Registry

namespace Decode

variable {registry : Registry} {cast : Cast} {names after : NameTable} {value result : Value}

/-! ## Values of any kind -/

/-- A polymorph gives an object back, and leaves a map to the branch that it selects. -/
theorem castLayer_polymorph_cases {dispatcher : Dispatcher Caster}
    (ran : (castLayer registry cast (.polymorph dispatcher) value).run names =
      (.ok result, after)) :
    (∃ type attributes, value = .object type attributes ∧
        dispatcher.targets.any (registry.isSubtype type) = true ∧ result = value) ∨
      ∃ data branch, value = .map data ∧ dispatcher.select data = .ok branch ∧
        (cast branch.caster (.map data)).run names = (.ok result, after) := by
  cases value with
  | object type attributes =>
    unfold castLayer at ran
    simp only at ran
    split at ran
    · rename_i known
      cases ran
      exact .inl ⟨type, attributes, rfl, known, rfl⟩
    · cases ran
  | map data =>
    obtain ⟨branch, between, selected, ran⟩ := run_bind_ok.mp (run_adapt_ok.mp ran)
    rw [run_except, outcome_eq_iff] at selected
    obtain ⟨selected, rfl⟩ := selected
    exact .inr ⟨data, branch, rfl, selected, run_adapt_ok.mp ran⟩
  | _ => cases ran

/-- A composite type gives objects of its own, unless it is given one of a subtype. -/
theorem castLayer_composite_cases (wellFormed : registry.WellFormed) (growing : GrowingCast cast)
    {name : String}
    (ran : (castLayer registry cast (.composite name) value).run names = (.ok result, after)) :
    ∃ type attributes, result = .object type attributes ∧ registry.isSubtype type name = true ∧
      (type = name ∨ value = result) := by
  have made : ∀ {composite : Composite} {entries : Fields Value} {start : NameTable},
      registry.compositeNamed name = .ok composite →
        (fromEntries registry cast composite entries).run start = (.ok result, after) →
          ∃ attributes, result = .object name attributes := by
    intro composite entries start found ran
    rw [wellFormed.compositeNamed] at found
    obtain ⟨-, attributes, same, -⟩ :=
      fromEntries_filled wellFormed growing (Registry.found_ok.mp found) ran
    exact ⟨attributes, same⟩
  cases value with
  | object type attributes =>
    simp only [castLayer, castComposite] at ran
    split at ran
    · rename_i known
      cases ran
      exact ⟨type, attributes, rfl, known, .inr rfl⟩
    · obtain ⟨composite, between, found, ran⟩ := run_bind_ok.mp (run_adapt_ok.mp ran)
      obtain ⟨entries, start, -, ran⟩ := run_bind_ok.mp ran
      rw [run_except, outcome_eq_iff] at found
      obtain ⟨attributes, same⟩ := made found.1 ran
      exact ⟨name, attributes, same, registry.isSubtype_refl name, .inl rfl⟩
  | map entries =>
    obtain ⟨composite, between, found, ran⟩ := run_bind_ok.mp (run_adapt_ok.mp ran)
    rw [run_except, outcome_eq_iff] at found
    obtain ⟨attributes, same⟩ := made found.1 ran
    exact ⟨name, attributes, same, registry.isSubtype_refl name, .inl rfl⟩
  | _ => cases ran

/-! ## Maps among the results -/

section

variable (wellFormed : registry.WellFormed)

include wellFormed

/-- Only a caster that takes anything, or a polymorph on the way to one, gives a map. -/
theorem castLayer_map (growing : GrowingCast cast) {caster : Caster} {data : Fields Value}
    (ran : (castLayer registry cast caster value).run names = (.ok (.map data), after)) :
    (caster = .identity ∧ value = .map data) ∨
      ∃ dispatcher inside branch, caster = .polymorph dispatcher ∧ value = .map inside ∧
        dispatcher.select inside = .ok branch ∧
        (cast branch.caster (.map inside)).run names = (.ok (.map data), after) := by
  cases caster with
  | identity => exact .inl ⟨rfl, (castLayer_identity_ok ran).symm⟩
  | scalar type =>
    have conforms := Registry.castScalar_conforms (castLayer_scalar_ok.mp ran).1
    cases type <;> cases conforms
  | list item =>
    obtain ⟨items, results, -, impossible, -⟩ := castLayer_list_ok growing ran
    cases impossible
  | enumeration name =>
    obtain ⟨⟨enumeration, member, -, -, impossible⟩, -⟩ := castLayer_enumeration_ok.mp ran
    cases impossible
  | composite name =>
    obtain ⟨type, attributes, impossible, -⟩ := castLayer_composite_cases wellFormed growing ran
    cases impossible
  | polymorph dispatcher =>
    rcases castLayer_polymorph_cases ran with
      ⟨type, attributes, rfl, -, impossible⟩ | ⟨inside, branch, rfl, selected, casted⟩
    · cases impossible
    · exact .inr ⟨dispatcher, inside, branch, rfl, rfl, selected, casted⟩

/-- A map that a cast gives is the one that it was given, and casting it takes the same way again. -/
theorem castWith_map {fuel : Nat} {caster : Caster} {data : Fields Value}
    (ran : (castWith registry fuel caster value).run names = (.ok (.map data), after)) :
    value = .map data ∧ registry.recognizes caster (.map data) = true ∧
      ∀ more, caster.height ≤ more → ∀ later,
        (castWith registry more caster (.map data)).run later = (.ok (.map data), later) := by
  induction fuel generalizing caster value names after with
  | zero => cases ran
  | succ layers ih =>
    rcases castLayer_map wellFormed (castWith_growing registry layers) ran with
      ⟨rfl, rfl⟩ | ⟨dispatcher, inside, branch, rfl, rfl, selected, casted⟩
    · refine ⟨rfl, rfl, fun more enough later => ?_⟩
      cases more with
      | zero => exact absurd enough (Nat.not_succ_le_zero 0)
      | succ more => rfl
    · obtain ⟨same, -, again⟩ := ih casted
      cases same
      refine ⟨rfl, rfl, fun more enough later => ?_⟩
      have lower := Caster.height_of_branch (select_mem selected)
      cases more with
      | zero => omega
      | succ more =>
        refine run_adapt_ok.mpr (run_bind_ok.mpr ⟨branch, later, ?_, ?_⟩)
        · rw [run_except, selected]
        · exact run_adapt_ok.mpr (again more (by omega) later)

/-! ## Results that are recognized -/

/-- Whatever a caster gives is recognized by it, unless it is a polymorph or has one for items. -/
theorem castLayer_recognized (growing : GrowingCast cast) {caster : Caster}
    (ran : (castLayer registry cast caster value).run names = (.ok result, after)) :
    registry.recognizes caster result = true ∨ (∃ item, caster = .list item) ∨
      ∃ dispatcher, caster = .polymorph dispatcher := by
  cases caster with
  | identity => exact .inl rfl
  | scalar type => exact .inl (Registry.castScalar_conforms (castLayer_scalar_ok.mp ran).1)
  | list item => exact .inr (.inl ⟨item, rfl⟩)
  | enumeration name =>
    obtain ⟨⟨enumeration, member, -, -, rfl⟩, -⟩ := castLayer_enumeration_ok.mp ran
    exact .inl rfl
  | composite name =>
    obtain ⟨type, attributes, rfl, known, -⟩ := castLayer_composite_cases wellFormed growing ran
    exact .inl known
  | polymorph dispatcher => exact .inr (.inr ⟨dispatcher, rfl⟩)

/-- A cast of what a cast gave gives the same, if it is recognized. -/
theorem castWith_recognized {fuel : Nat} {caster : Caster}
    (ran : (castWith registry fuel caster value).run names = (.ok result, after))
    (recognized : registry.recognizes caster result = true) {more : Nat}
    (enough : caster.height ≤ more) (later : NameTable) :
    (castWith registry more caster result).run later = (.ok result, later) := by
  induction fuel generalizing caster value result names after more with
  | zero => cases ran
  | succ layers ih =>
    have positive := caster.height_pos
    obtain ⟨more, rfl⟩ : ∃ fewer, more = fewer + 1 := ⟨more - 1, by omega⟩
    have growing := castWith_growing registry layers
    cases caster with
    | identity => rfl
    | scalar type =>
      have conforms := Registry.castScalar_conforms (castLayer_scalar_ok.mp ran).1
      exact castLayer_scalar_ok.mpr ⟨castScalar_of_conforms conforms, rfl⟩
    | list item =>
      obtain ⟨items, results, rfl, rfl, each⟩ := castLayer_list_ok growing ran
      rw [Registry.recognizes, List.all_eq_true] at recognized
      have again : ∀ result ∈ results,
          (castWith registry more item result).run later = (.ok result, later) := by
        intro result member
        obtain ⟨source, -, start, stop, -, -, casted⟩ := Lists.source_of_result each member
        exact ih casted (recognized result member) (by rw [Caster.height] at enough; omega)
      have casts := castItems_again (List.forall₂_same.mpr again) 0
      exact run_bind_ok.mpr ⟨results, later, run_adapt_ok.mpr casts, rfl⟩
    | enumeration name =>
      obtain ⟨⟨enumeration, member, present, found, rfl⟩, -⟩ := castLayer_enumeration_ok.mp ran
      obtain ⟨named, own⟩ := wellFormed.enumerations name enumeration present
      obtain ⟨held, listed⟩ := Enumeration.lookup?_listed own.distinct found
      have same := own.members held member listed
      refine castLayer_enumeration_ok.mpr ⟨⟨enumeration, member, present, ?_, rfl⟩, rfl⟩
      rw [Enumeration.lookup?, if_pos same.enumeration, Enumeration.member?, same.name, listed]
    | composite name =>
      obtain ⟨type, attributes, rfl, known, -⟩ := castLayer_composite_cases wellFormed growing ran
      show (castComposite registry _ name (.object type attributes)).run later = _
      rw [castComposite, if_pos known]
      rfl
    | polymorph dispatcher =>
      cases result with
      | object type attributes =>
        rw [Registry.recognizes] at recognized
        show (castLayer registry _ (.polymorph dispatcher) (.object type attributes)).run later = _
        simp [castLayer, recognized]
      | map data => exact (castWith_map wellFormed ran).2.2 _ enough later
      | _ => cases recognized

/-- What a cast gave is only taken by a cast again if it is recognized. -/
theorem castWith_recognizes {fuel : Nat} {caster : Caster}
    (ran : (castWith registry fuel caster value).run names = (.ok result, after)) {more : Nat}
    {other : Value} {start stop : NameTable}
    (again : (castWith registry more caster result).run start = (.ok other, stop)) :
    registry.recognizes caster result = true := by
  induction fuel generalizing caster value result other names after more start stop with
  | zero => cases ran
  | succ layers ih =>
    have growing := castWith_growing registry layers
    rcases castLayer_recognized wellFormed growing ran with
      known | ⟨item, rfl⟩ | ⟨dispatcher, rfl⟩
    · exact known
    · obtain ⟨items, results, rfl, rfl, each⟩ := castLayer_list_ok growing ran
      obtain ⟨fewer, again⟩ := castWith_ok again
      obtain ⟨_, others, same, -, eachAgain⟩ :=
        castLayer_list_ok (castWith_growing registry fewer) again
      cases same
      rw [Registry.recognizes, List.all_eq_true]
      intro result member
      obtain ⟨source, -, _, _, -, -, casted⟩ := Lists.source_of_result each member
      obtain ⟨other, -, _, _, -, -, castedAgain⟩ := Lists.result_of_source eachAgain member
      exact ih casted castedAgain
    · obtain ⟨fewer, again⟩ := castWith_ok again
      rcases castLayer_polymorph_cases again with
        ⟨type, attributes, rfl, known, -⟩ | ⟨data, branch, rfl, -⟩
      · exact known
      · rfl

/-! ## Casters that recognize all their results -/

/-- What a caster makes of a map is recognized by a dispatcher that takes back all its choices. -/
theorem castWith_taken {fuel : Nat} {caster : Caster} {data : Fields Value}
    (ran : (castWith registry fuel caster (.map data)).run names = (.ok result, after))
    {dispatcher : Dispatcher Caster}
    (taken : ∀ choice ∈ caster.choices, registry.takesBack dispatcher choice = true) :
    registry.recognizes (.polymorph dispatcher) result = true := by
  induction fuel generalizing caster names after with
  | zero => cases ran
  | succ layers ih =>
    cases caster with
    | identity =>
      cases castLayer_identity_ok ran
      rfl
    | scalar type =>
      have casted := (castLayer_scalar_ok.mp ran).1
      cases type <;> cases casted
    | list item => cases ran
    | enumeration name => cases taken _ (List.mem_singleton_self _)
    | composite name =>
      obtain ⟨type, attributes, rfl, -, own⟩ :=
        castLayer_composite_cases wellFormed (castWith_growing registry layers) ran
      cases own with
      | inl same => exact same ▸ taken _ (List.mem_singleton_self _)
      | inr impossible => cases impossible
    | polymorph inner =>
      rcases castLayer_polymorph_cases ran with
        ⟨_, _, impossible, -⟩ | ⟨inside, branch, same, selected, casted⟩
      · cases impossible
      · cases same
        refine ih casted fun choice listed => taken choice ?_
        exact Caster.mem_choices_polymorph.mpr ⟨branch, select_mem selected, listed⟩

/-- A caster whose polymorphs recognize what their branches lead to recognizes all it gives. -/
theorem castWith_settled {fuel : Nat} {caster : Caster}
    (ran : (castWith registry fuel caster value).run names = (.ok result, after))
    (settled : registry.settles caster = true) : registry.recognizes caster result = true := by
  induction fuel generalizing caster value result names after with
  | zero => cases ran
  | succ layers ih =>
    have growing := castWith_growing registry layers
    rcases castLayer_recognized wellFormed growing ran with
      known | ⟨item, rfl⟩ | ⟨dispatcher, rfl⟩
    · exact known
    · obtain ⟨items, results, rfl, rfl, each⟩ := castLayer_list_ok growing ran
      rw [Registry.recognizes, List.all_eq_true]
      intro result member
      obtain ⟨source, -, start, stop, -, -, casted⟩ := Lists.source_of_result each member
      exact ih casted settled
    · rw [Registry.settles, List.all_eq_true] at settled
      rcases castLayer_polymorph_cases ran with
        ⟨type, attributes, rfl, known, rfl⟩ | ⟨data, branch, rfl, selected, casted⟩
      · exact known
      · refine castWith_taken wellFormed casted fun choice listed => settled choice ?_
        exact Caster.mem_choices_polymorph.mpr ⟨branch, select_mem selected, listed⟩

end

end Decode

end TypedSchema
