import TypedSchema.Proofs.Decode.Objects
import TypedSchema.Proofs.Lists
import TypedSchema.Proofs.Values.Plain

/-!
What a cast of plain data is made of: one lemma for each kind of caster says which casts of smaller
data or by smaller casters a cast that succeeds rests on.
-/

namespace TypedSchema

namespace Decode

open NameTable (Grows)

variable {registry : Registry} {cast : Cast} {names after : NameTable} {result : Value}

/-- A cast that succeeded at some time between two states. -/
def CastTo (cast : Cast) (before after : NameTable) (caster : Caster) (value result : Value) :
    Prop :=
  ∃ start stop, Grows before start ∧ Grows stop after ∧
    (cast caster value).run start = (.ok result, stop)

theorem CastTo.widen {before start stop after : NameTable} {caster : Caster} {value : Value}
    (earlier : Grows before start) (later : Grows stop after)
    (inner : CastTo cast start stop caster value result) :
    CastTo cast before after caster value result := by
  obtain ⟨first, last, fromStart, toStop, ran⟩ := inner
  exact ⟨first, last, earlier.trans fromStart, toStop.trans later, ran⟩

/-- A coerced value is the value itself, if that is null or conforms, and else its cast. -/
theorem Coerced.cases {step : Assignment}
    (coerced : Coerced registry cast names after step result) :
    ((step.value.isNull = true ∨ registry.conforms step.value step.type = true) ∧
        result = step.value) ∨
      CastTo cast names after step.caster step.value result := by
  obtain ⟨start, stop, earlier, later, ran⟩ := coerced
  unfold coerce at ran
  split at ran
  · rename_i kept
    cases ran
    exact .inl ⟨Bool.or_eq_true_iff.mp kept, rfl⟩
  · exact .inr ⟨start, stop, earlier, later, run_adapt_ok.mp ran⟩

/-- A cast that succeeds has a layer left. -/
theorem castWith_ok {fuel : Nat} {caster : Caster} {value : Value}
    (ran : (castWith registry fuel caster value).run names = (.ok result, after)) :
    ∃ layers, (castLayer registry (castWith registry layers) caster value).run names =
      (.ok result, after) := by
  cases fuel with
  | zero => cases ran
  | succ layers => exact ⟨layers, ran⟩

/-! ## Scalars and members -/

theorem castLayer_identity_ok {value : Value}
    (ran : (castLayer registry cast .identity value).run names = (.ok result, after)) :
    result = value := by
  cases ran
  rfl

theorem castLayer_scalar_ok {type : Scalar} {value : Value} :
    (castLayer registry cast (.scalar type) value).run names = (.ok result, after) ↔
      castScalar type value = some result ∧ names = after := by
  unfold castLayer
  simp only
  cases castScalar type value with
  | none => simp
  | some scalar => simp

theorem castLayer_enumeration_ok {name : String} {value : Value} :
    (castLayer registry cast (.enumeration name) value).run names = (.ok result, after) ↔
      (∃ enumeration member, Fields.get? registry.enumerations name = some enumeration ∧
        enumeration.lookup? value = some member ∧ result = .member member) ∧ names = after := by
  unfold castLayer
  simp only [Registry.enumeration, Registry.found]
  cases Fields.get? registry.enumerations name with
  | none => simp
  | some enumeration =>
    cases found : enumeration.lookup? value with
    | none => simp [found]
    | some member => simp [found, eq_comm]

/-! ## Lists -/

theorem castItems_ok (growing : GrowingCast cast) {caster : Caster} {index : Nat}
    {items results : List Value}
    (ran : (castItems cast caster index items).run names = (.ok results, after)) :
    List.Forall₂ (CastTo cast names after caster) items results := by
  induction items generalizing index names results with
  | nil =>
    cases ran
    exact .nil
  | cons item rest ih =>
    obtain ⟨first, between, firstRan, ran⟩ := run_bind_ok.mp ran
    obtain ⟨others, last, restRan, ran⟩ := run_bind_ok.mp ran
    cases ran
    have firstCast := run_adapt_ok.mp firstRan
    have restGrows : Growing (castItems cast caster (index + 1) rest) :=
      castItems_growing growing ..
    have later := restGrows.grows between
    rw [restRan] at later
    have earlier := (growing caster item).grows names
    rw [firstCast] at earlier
    refine .cons ⟨names, between, .refl names, later, firstCast⟩ ?_
    exact (ih restRan).imp fun _ _ inner => inner.widen earlier (.refl after)

theorem castLayer_list_ok (growing : GrowingCast cast) {item : Caster} {value : Value}
    (ran : (castLayer registry cast (.list item) value).run names = (.ok result, after)) :
    ∃ items results, value = .list items ∧ result = .list results ∧
      List.Forall₂ (CastTo cast names after item) items results := by
  cases value with
  | list items =>
    obtain ⟨results, between, itemsRan, ran⟩ := run_bind_ok.mp ran
    cases ran
    exact ⟨items, results, rfl, rfl, castItems_ok growing (run_adapt_ok.mp itemsRan)⟩
  | _ => cases ran

/-! ## Branches -/

theorem select_mem {κ : Type} {dispatcher : Dispatcher κ} {data : Fields Value}
    {branch : Branch κ} (selected : dispatcher.select data = .ok branch) :
    branch ∈ dispatcher.branches := by
  cases dispatcher with
  | keyed property branches =>
    unfold Dispatcher.select at selected
    simp only at selected
    split at selected
    · cases selected
    · split at selected
      · cases selected
      · split at selected
        · rename_i found
          cases selected
          exact Fields.value_mem (Fields.mem_of_get? found)
        · cases selected
  | conditional conditions =>
    unfold Dispatcher.select at selected
    simp only at selected
    split at selected
    · rename_i found
      cases selected
      exact List.mem_map_of_mem (List.mem_of_find?_eq_some found)
    · cases selected

theorem castLayer_polymorph_ok {dispatcher : Dispatcher Caster} {value : Value}
    (plain : value.Plain)
    (ran : (castLayer registry cast (.polymorph dispatcher) value).run names =
      (.ok result, after)) :
    ∃ data branch, value = .map data ∧ dispatcher.select data = .ok branch ∧
      CastTo cast names after branch.caster value result := by
  cases plain with
  | @map data each =>
    obtain ⟨branch, between, selected, ran⟩ := run_bind_ok.mp (run_adapt_ok.mp ran)
    rw [run_except, outcome_eq_iff] at selected
    obtain ⟨selected, rfl⟩ := selected
    exact ⟨data, branch, rfl, selected, names, after, .refl names, .refl after,
      run_adapt_ok.mp ran⟩
  | _ => cases ran

/-! ## Objects -/

theorem castLayer_composite_ok (wellFormed : registry.WellFormed) {name : String} {value : Value}
    (plain : value.Plain) :
    (castLayer registry cast (.composite name) value).run names = (.ok result, after) ↔
      ∃ entries composite, value = .map entries ∧
        Fields.get? registry.composites name = some composite ∧
        (fromEntries registry cast composite entries).run names = (.ok result, after) := by
  cases plain with
  | map each =>
    simp only [castLayer, castComposite, run_adapt_ok, run_bind_ok, run_except, outcome_eq_iff,
      wellFormed.compositeNamed, Registry.composite, Registry.found_ok]
    constructor
    · rintro ⟨composite, _, ⟨found, rfl⟩, ran⟩
      exact ⟨_, composite, rfl, found, ran⟩
    · rintro ⟨_, composite, equal, found, ran⟩
      cases equal
      exact ⟨composite, names, ⟨found, rfl⟩, ran⟩
  | _ => simp [castLayer, castComposite]

theorem keywords_value_mem {composite : Composite} {entries : List (String × Value)}
    {keyword : String × Value} (member : keyword ∈ (keywords composite entries names).1) :
    ∃ key, (key, keyword.2) ∈ entries := by
  induction entries generalizing names with
  | nil => cases member
  | cons entry rest ih =>
    rw [keywords_cons] at member
    cases List.mem_cons.mp member with
    | inl same => exact ⟨entry.1, same ▸ List.mem_cons_self⟩
    | inr later =>
      obtain ⟨key, held⟩ := ih later
      exact ⟨key, List.mem_cons_of_mem _ held⟩

/-- What is coerced into the attributes of an object is plain as the data is: it is a value of the
data, or the default of a property, which is null. -/
theorem fromEntries_filled (wellFormed : registry.WellFormed) (growing : GrowingCast cast)
    {name : String} {composite : Composite}
    (present : Fields.get? registry.composites name = some composite) {entries : Fields Value}
    (ran : (fromEntries registry cast composite entries).run names = (.ok result, after)) :
    ∃ keyword attributes, result = .object name attributes ∧
      (∀ entry ∈ keyword, ∃ key, (key, entry.2) ∈ entries) ∧ Fields.Distinct keyword ∧
      Filled registry cast composite keyword (keywords composite entries names).2 after
        attributes := by
  unfold fromEntries at ran
  obtain ⟨keyword, between, read, ran⟩ := run_bind_ok.mp ran
  rw [run_lift, outcome_eq_iff] at read
  obtain ⟨equal, rfl⟩ := read
  cases equal
  obtain ⟨attributes, rfl, filled⟩ :=
    construct_filled wellFormed growing present (Fields.distinct_ofList _) ran
  refine ⟨_, attributes, rfl, ?_, Fields.distinct_ofList _, filled⟩
  intro entry member
  cases Fields.mem_insertAll member with
  | inl added => exact keywords_value_mem added
  | inr none => cases none

end Decode

end TypedSchema
