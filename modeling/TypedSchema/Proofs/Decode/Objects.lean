import TypedSchema.Proofs.Decode.Tables

/-!
Objects as they come out of filling. Every declared property has a value, which was coerced by the
declaration in the table of the type from what its keyword or its default gave; every further
keyword was coerced by the way of the type for keys that are not declared; and there is nothing
else.
-/

namespace TypedSchema

namespace Decode

open NameTable (Grows)

variable {registry : Registry} {cast : Cast}

/-- A value that was coerced at some time between two states. -/
def Coerced (registry : Registry) (cast : Cast) (before after : NameTable) (step : Assignment)
    (value : Value) : Prop :=
  ∃ start stop, Grows before start ∧ Grows stop after ∧
    (coerce registry cast step.name step.type step.caster step.value).run start =
      (.ok value, stop)

section

variable {names after : NameTable} {assigned result : Fields Value}

theorem Coerced.earlier {before between : NameTable} (grows : Grows before between)
    {step : Assignment} {value : Value} (coerced : Coerced registry cast between after step value) :
    Coerced registry cast before after step value := by
  obtain ⟨start, stop, earlier, later, ran⟩ := coerced
  exact ⟨start, stop, grows.trans earlier, later, ran⟩

theorem assignAll_growing (growing : GrowingCast cast) (steps : List Assignment)
    (assigned : Fields Value) : Growing (assignAll registry cast steps assigned) := by
  induction steps generalizing assigned with
  | nil => exact .pure assigned
  | cons step rest ih => exact .bind (coerce_growing growing ..) fun value => ih _

theorem assignAll_names {steps : List Assignment}
    (ran : (assignAll registry cast steps assigned).run names = (.ok result, after)) :
    Fields.names result =
      Fields.names (Fields.insertAll assigned (steps.map fun step => (step.name, step.value))) := by
  induction steps generalizing assigned names with
  | nil =>
    cases ran
    rfl
  | cons step rest ih =>
    obtain ⟨value, between, -, later⟩ := run_bind_ok.mp ran
    rw [ih later, List.map_cons, Fields.insertAll_cons]
    apply Fields.names_insertAll_congr
    · rw [Fields.names_insert, Fields.names_insert]
    · rfl

theorem assignAll_distinct {steps : List Assignment} (distinct : Fields.Distinct assigned)
    (ran : (assignAll registry cast steps assigned).run names = (.ok result, after)) :
    Fields.Distinct result := by
  rw [Fields.Distinct, assignAll_names ran]
  exact distinct.insertAll _

theorem mem_assignAll_names {steps : List Assignment} {name : String}
    (ran : (assignAll registry cast steps assigned).run names = (.ok result, after)) :
    name ∈ Fields.names result ↔
      name ∈ Fields.names assigned ∨ lastStep steps name ≠ none := by
  rw [assignAll_names ran, Fields.mem_names_insertAll, ne_eq, lastStep_eq_none_iff, not_not]
  simp [Fields.names, Function.comp_def]

theorem assignAll_get?_of_none {steps : List Assignment} {name : String}
    (ran : (assignAll registry cast steps assigned).run names = (.ok result, after))
    (last : lastStep steps name = none) :
    Fields.get? result name = Fields.get? assigned name := by
  induction steps generalizing assigned names with
  | nil =>
    cases ran
    rfl
  | cons step rest ih =>
    obtain ⟨value, between, -, later⟩ := run_bind_ok.mp ran
    rw [lastStep_cons, Option.or_eq_none_iff] at last
    have different : name ≠ step.name := by
      intro same
      simp [same] at last
    rw [ih later last.1, Fields.get?_insert, if_neg different]

/-- The value of an attribute is what the last assignment to it gave. -/
theorem assignAll_get?_of_some (growing : GrowingCast cast) {steps : List Assignment}
    {name : String} {step : Assignment}
    (ran : (assignAll registry cast steps assigned).run names = (.ok result, after))
    (last : lastStep steps name = some step) :
    ∃ value, Fields.get? result name = some value ∧
      Coerced registry cast names after step value := by
  induction steps generalizing assigned names with
  | nil => cases last
  | cons first rest ih =>
    obtain ⟨value, between, coerced, later⟩ := run_bind_ok.mp ran
    have grown : Grows names between := by
      have growing : Growing (coerce registry cast first.name first.type first.caster
        first.value) := coerce_growing growing ..
      exact growing.of_run coerced
    rw [lastStep_cons] at last
    cases among : lastStep rest name with
    | some other =>
      rw [among] at last
      cases last
      obtain ⟨value, found, inner⟩ := ih later among
      exact ⟨value, found, inner.earlier grown⟩
    | none =>
      rw [among, Option.none_or] at last
      split at last
      · rename_i same
        cases last
        have growing : Growing (assignAll registry cast rest
          (Fields.insert assigned step.name value)) := assignAll_growing growing ..
        refine ⟨value, ?_, names, between, .refl names, growing.of_run later, coerced⟩
        rw [assignAll_get?_of_none later among, Fields.get?_insert, if_pos same]
      · cases last

end

/-! ## Filled objects -/

/-- The attributes that filling gives for keywords. -/
structure Filled (registry : Registry) (cast : Cast) (composite : Composite)
    (keywords : Fields Value) (before after : NameTable) (attributes : Fields Value) : Prop where
  distinct : Fields.Distinct attributes
  declared : ∀ name property, Fields.get? composite.properties name = some property →
    ∃ given value, property.supplied keywords = some given ∧
      Fields.get? attributes name = some value ∧
      Coerced registry cast before after
        ⟨property.name, property.type, property.caster, given⟩ value
  extra : ∀ name given, Fields.get? keywords name = some given →
    Fields.get? composite.properties name = none →
      ∃ catchAll value, composite.catchAll = some catchAll ∧
        Fields.get? attributes name = some value ∧
        Coerced registry cast before after ⟨name, catchAll.type, catchAll.caster, given⟩ value
  only : ∀ name, name ∈ Fields.names attributes →
    name ∈ Fields.names composite.properties ∨ name ∈ Fields.names keywords

/-- Every keyword gives an attribute. -/
theorem Filled.stored {composite : Composite} {keywords : Fields Value} {before after : NameTable}
    {attributes : Fields Value}
    (filled : Filled registry cast composite keywords before after attributes) {name : String}
    (member : name ∈ Fields.names keywords) : name ∈ Fields.names attributes := by
  obtain ⟨given, keyword⟩ := Fields.mem_names_iff.mp member
  cases declared : Fields.get? composite.properties name with
  | some property =>
    obtain ⟨_, value, -, assigned, -⟩ := filled.declared name property declared
    exact Fields.mem_names_iff.mpr ⟨value, assigned⟩
  | none =>
    obtain ⟨_, value, -, assigned, -⟩ := filled.extra name given keyword declared
    exact Fields.mem_names_iff.mpr ⟨value, assigned⟩

theorem assignAll_filled (wellFormed : registry.WellFormed) (growing : GrowingCast cast)
    {name : String} {composite : Composite}
    (present : Fields.get? registry.composites name = some composite) {keywords : Fields Value}
    (distinct : Fields.Distinct keywords) (accepts : composite.signature.Accepts keywords)
    {depth : Nat} {found : List Signature}
    (held : leaves registry depth composite.initializer = some found) {attributes : Fields Value}
    {before after : NameTable}
    (ran : (assignAll registry cast
      (found.flatMap (·.assignments (composite.signature.boundTo keywords))) []).run before =
        (.ok attributes, after)) :
    Filled registry cast composite keywords before after attributes := by
  have own := (wellFormed.composites name composite present).2
  have params := own.distinctParams
  obtain ⟨table, catchAll⟩ := leaves_declare wellFormed present held
  have extraDistinct : Fields.Distinct (composite.signature.boundTo keywords).extra :=
    Signature.distinct_filter distinct _
  constructor
  case distinct => exact assignAll_distinct (by simp [Fields.Distinct, Fields.names]) ran
  case declared =>
    intro name property declared
    have member : property ∈ composite.signature.params := by
      rw [own.params]
      exact Fields.value_mem (Fields.mem_of_get? declared)
    have notExtra : name ∉ Fields.names (composite.signature.boundTo keywords).extra := by
      intro extra
      have undeclared := own.undeclared_iff.mp (Signature.mem_names_extras.mp extra).2
      rw [declared] at undeclared
      cases undeclared
    have last := lastStep_declared found notExtra
    rw [← table, declared] at last
    obtain ⟨value, assigned, coerced⟩ := assignAll_get?_of_some growing ran last
    obtain ⟨given, supplied⟩ := Option.ne_none_iff_exists'.mp (accepts.supplied property member)
    refine ⟨given, value, supplied, assigned, ?_⟩
    have bound := Signature.get?_boundTo params keywords member
    rw [supplied] at bound
    simpa [Decode.Property.step, bound] using coerced
  case extra =>
    intro name given keyword undeclared
    have isExtra : Fields.get? (composite.signature.boundTo keywords).extra name = some given := by
      apply Fields.get?_of_mem extraDistinct
      exact Signature.mem_extras.mpr
        ⟨Fields.mem_of_get? keyword, own.undeclared_iff.mpr undeclared⟩
    have notDeclared : name ∉ Fields.names (leafParams found) := by
      rw [← Fields.mem_names_ofList, ← Fields.get?_eq_none_iff, ← table]
      exact undeclared
    have last := lastStep_undeclared found extraDistinct isExtra notDeclared
    have accepted := accepts.extra (List.ne_nil_of_mem (Fields.mem_of_get? isExtra))
    obtain ⟨way, takesWay⟩ := Option.ne_none_iff_exists'.mp (own.acceptsExtra_iff.mp accepted)
    rw [← catchAll, takesWay] at last
    obtain ⟨value, assigned, coerced⟩ := assignAll_get?_of_some growing ran last
    exact ⟨way, value, takesWay, assigned, coerced⟩
  case only =>
    intro name member
    rw [mem_assignAll_names ran] at member
    cases member with
    | inl none => cases none
    | inr last =>
      by_cases extra : name ∈ Fields.names (composite.signature.boundTo keywords).extra
      · exact .inr (Signature.mem_names_extras.mp extra).1
      · rw [lastStep_declared found extra, ne_eq, Option.map_eq_none_iff, ← table,
          Fields.get?_eq_none_iff, not_not] at last
        exact .inl last

/-- Constructing succeeds only with filled attributes, which come leaf after leaf. -/
theorem construct_ok (wellFormed : registry.WellFormed) {name : String} {composite : Composite}
    (present : Fields.get? registry.composites name = some composite) {keywords : Fields Value}
    (distinct : Fields.Distinct keywords) {value : Value} {before after : NameTable} :
    (construct registry cast composite { keyword := keywords }).run before = (.ok value, after) ↔
      composite.signature.Accepts keywords ∧
        ∃ found attributes,
          leaves registry (generations registry) composite.initializer = some found ∧
            (assignAll registry cast
              (found.flatMap (·.assignments (composite.signature.boundTo keywords))) []).run
              before = (.ok attributes, after) ∧
            value = .object composite.name attributes := by
  have byLeaves : RunsByLeaves registry cast (generations registry) :=
    runInitializer_ok wellFormed.nested (generations registry)
  have runs := byLeaves composite.name composite.initializer
    (wellFormed.nested name composite present) keywords distinct []
  unfold construct
  rw [run_bind_ok]
  simp only [run_adapt_ok, runs, run_pure, outcome_eq_iff, Except.ok.injEq]
  constructor
  · rintro ⟨attributes, between, ⟨accepts, found, held, ran⟩, rfl, rfl⟩
    exact ⟨accepts, found, attributes, held, ran, rfl⟩
  · rintro ⟨accepts, found, attributes, held, ran, rfl⟩
    exact ⟨attributes, after, ⟨accepts, found, held, ran⟩, rfl, rfl⟩

theorem construct_filled (wellFormed : registry.WellFormed) (growing : GrowingCast cast)
    {name : String} {composite : Composite}
    (present : Fields.get? registry.composites name = some composite) {keywords : Fields Value}
    (distinct : Fields.Distinct keywords) {value : Value} {before after : NameTable}
    (ran : (construct registry cast composite { keyword := keywords }).run before =
      (.ok value, after)) :
    ∃ attributes, value = .object name attributes ∧
      Filled registry cast composite keywords before after attributes := by
  obtain ⟨accepts, found, attributes, held, assigned, rfl⟩ :=
    (construct_ok wellFormed present distinct).mp ran
  have named := (wellFormed.composites name composite present).1
  exact ⟨attributes, by rw [named],
    assignAll_filled wellFormed growing present distinct accepts held assigned⟩

/-- Once data has been decoded, all its keys that conversion leaves alone are special. -/
theorem fromEntries_settled (growing : GrowingCast cast) {composite : Composite}
    {entries : Fields Value} {before after : NameTable} {result : Except Error Value}
    (ran : (fromEntries registry cast composite entries).run before = (result, after)) :
    ∀ key ∈ Fields.names entries, composite.Escapes key → key ∈ after.of composite.name := by
  intro key member escapes
  have read : key ∈ (keywords composite entries before).2.of composite.name :=
    mem_keywords.mpr (.inr ⟨rfl, member, escapes⟩)
  have constructed : (construct registry cast composite
      { keyword := Fields.ofList (keywords composite entries before).1 }).run
        (keywords composite entries before).2 = (result, after) := by
    rwa [fromEntries, run_bind, run_lift] at ran
  exact ((construct_growing growing composite _).of_run constructed).kept _ key read

/-- Plain data succeeds only as the arguments that its keys give. -/
theorem fromEntries_ok {composite : Composite} {entries : Fields Value} {names after : NameTable}
    (sound : names.Sound) {value : Value} :
    (fromEntries registry cast composite entries).run names = (.ok value, after) ↔
      (construct registry cast composite
        { keyword := Fields.ofList (composite.internalEntries entries) }).run
          (keywords composite entries names).2 = (.ok value, after) := by
  unfold fromEntries
  rw [run_bind_ok]
  simp only [run_lift, outcome_eq_iff, Except.ok.injEq, keywords_fst composite entries sound]
  constructor
  · rintro ⟨_, _, ⟨rfl, rfl⟩, ran⟩
    exact ran
  · intro ran
    exact ⟨_, _, ⟨rfl, rfl⟩, ran⟩

end Decode

end TypedSchema
