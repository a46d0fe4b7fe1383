import TypedSchema.Proofs.Decode.Layers
import TypedSchema.Proofs.Decode.Recasting

/-!
Filling an object again from what it was written as. Every attribute comes back as the attribute of
its key, in its place; and as all leaves of the type declare it alike, each of them coerces what was
read to the value that the attribute had.
-/

namespace TypedSchema

namespace Composite

variable {registry : Registry} {composite : Composite}

/-- Declared or not, a key has the attribute that conversion gives. -/
theorem WellFormed.attributeOf_eq (own : composite.WellFormed registry) (key : String) :
    composite.attributeOf key = Naming.snake key := by
  cases declared : composite.declaring? key with
  | none => rw [attributeOf_of_undeclared declared]
  | some property =>
    have held := own.property_of_mem (declaring?_mem declared)
    rw [attributeOf_of_declared declared, (own.properties _ property held).snake,
      declaring?_external declared]

/-- The key of a declared property is declared for that property alone. -/
theorem WellFormed.attributeOf_external (own : composite.WellFormed registry) {name : String}
    {property : Property} (held : Fields.get? composite.properties name = some property) :
    composite.declaring? property.external ≠ none ∧
      composite.attributeOf property.external = name := by
  constructor
  · intro undeclared
    exact declaring?_eq_none_iff.mp undeclared property
      (Fields.value_mem (Fields.mem_of_get? held)) rfl
  · have table := own.properties name property held
    rw [own.attributeOf_eq, ← table.snake, table.name]

/-- What assigns an attribute as the table of the type declares it. -/
inductive Assigns (composite : Composite) (step : Assignment) : Prop where
  | declared {property : Property}
    (held : Fields.get? composite.properties step.name = some property)
    (type : step.type = property.type) (caster : step.caster = property.caster) :
    Assigns composite step
  | undeclared {catchAll : CatchAll}
    (absent : Fields.get? composite.properties step.name = none)
    (takes : composite.catchAll = some catchAll) (type : step.type = catchAll.type)
    (caster : step.caster = catchAll.caster) : Assigns composite step

namespace Assigns

variable {step : Assignment}

theorem fits (assigns : composite.Assigns step) (own : composite.WellFormed registry) :
    Fits True step.type step.caster := by
  cases assigns with
  | declared held type caster =>
    rw [type, caster]
    exact (own.properties _ _ held).fits
  | undeclared _ takes type caster =>
    rw [type, caster]
    exact own.fits _ takes

theorem reaches (assigns : composite.Assigns step) {name : String}
    (present : Fields.get? registry.composites name = some composite) :
    registry.Reaches (.composite name) step.caster := by
  cases assigns with
  | declared held _ caster =>
    rw [caster]
    exact .property .self present (Fields.value_mem (Fields.mem_of_get? held))
  | undeclared _ takes _ caster =>
    rw [caster]
    exact .catchAll .self present takes

/-- What is decoded inside a value of an object is decoded inside the object. -/
theorem decodes (assigns : composite.Assigns step) {owner : String}
    (present : Fields.get? registry.composites owner = some composite) {members : Fields Value}
    {key : String} {value : Value} (member : (key, value) ∈ members)
    (stored : composite.attributeOf key = step.name)
    (casted : (value.isNull || registry.conforms value step.type) = false) {name : String}
    {entries : Fields Value} (inner : registry.Decodes step.caster value name entries) :
    registry.Decodes (.composite owner) (.map members) name entries := by
  cases assigns with
  | declared held type caster =>
    rw [type] at casted
    rw [caster] at inner
    exact .declared present member (stored ▸ held) casted inner
  | undeclared absent takes type caster =>
    rw [type] at casted
    rw [caster] at inner
    exact .undeclared present member (stored ▸ absent) takes casted inner

/-- What is dispatched on inside a value of an object is so inside the object. -/
theorem dispatches (assigns : composite.Assigns step) {owner : String}
    (present : Fields.get? registry.composites owner = some composite)
    {members attributes : Fields Value} {key : String} {value given : Value}
    (member : (key, value) ∈ members) (stored : composite.attributeOf key = step.name)
    (casted : (value.isNull || registry.conforms value step.type) = false)
    (held : Fields.get? attributes step.name = some given) {dispatcher : Dispatcher Caster}
    {inside : Fields Value} {outcome : Value}
    (inner : registry.Dispatches step.caster value given dispatcher inside outcome) :
    registry.Dispatches (.composite owner) (.map members) (.object owner attributes) dispatcher
      inside outcome := by
  rw [← stored] at held
  cases assigns with
  | declared declares type caster =>
    rw [type] at casted
    rw [caster] at inner
    exact .declared present member (stored ▸ declares) casted held inner
  | undeclared absent takes type caster =>
    rw [type] at casted
    rw [caster] at inner
    exact .undeclared present member (stored ▸ absent) takes casted held inner

end Assigns

end Composite

namespace Decode

open NameTable (Grows)
open Value (Lifted Rereads)

variable {registry : Registry}

/-! ## Assignments of leaves -/

section

variable {composite : Composite} {keywords : Fields Value} {leaf : Signature}

/-- A leaf that agrees with the table assigns the keywords as the table says. -/
theorem Agrees.assigns (agrees : Agrees leaf composite) (own : composite.WellFormed registry)
    (distinct : Fields.Distinct keywords)
    (given : ∀ param ∈ composite.signature.params, param.name ∈ Fields.names keywords)
    {step : Assignment} (member : step ∈ leaf.assignments (composite.signature.boundTo keywords)) :
    Fields.get? keywords step.name = some step.value ∧ composite.Assigns step := by
  cases mem_assignments.mp member with
  | inl declared =>
    obtain ⟨param, listed, rfl⟩ := declared
    obtain ⟨property, held, type, caster⟩ := agrees.params param listed
    have named := (own.properties param.name property held).name
    have among : property ∈ composite.signature.params := by
      rw [own.params]
      exact Fields.value_mem (Fields.mem_of_get? held)
    obtain ⟨value, keyword⟩ := Fields.mem_names_iff.mp (given property among)
    have bound := Signature.get?_boundTo own.distinctParams keywords among
    rw [Property.supplied_of_get? keyword, named] at bound
    rw [named] at keyword
    have same : (Property.step param (composite.signature.boundTo keywords)).value = value := by
      simp [Decode.Property.step, bound]
    rw [same]
    exact ⟨keyword, .declared held type caster⟩
  | inr extra =>
    obtain ⟨catchAll, name, value, takes, listed, rfl⟩ := extra
    obtain ⟨keyword, undeclared⟩ := Signature.mem_extras.mp listed
    have absent := own.undeclared_iff.mp undeclared
    exact ⟨Fields.get?_of_mem distinct keyword,
      .undeclared absent (agrees.catchAll catchAll takes) rfl rfl⟩

end

/-! ## The order of attributes -/

section

variable {composite : Composite} {found : List Signature}

/-- Assignments as fields, for their names. -/
def named (steps : List Assignment) : Fields Value :=
  steps.map fun step => (step.name, step.value)

theorem names_named (steps : List Assignment) :
    Fields.names (named steps) = steps.map Assignment.name := by
  simp [Fields.names, named, Function.comp_def]

/-- The names of assignments depend on the names of the extras alone. -/
theorem names_assignments_congr {bound other : Bound}
    (same : Fields.names bound.extra = Fields.names other.extra) :
    (found.flatMap (·.assignments bound)).map Assignment.name =
      (found.flatMap (·.assignments other)).map Assignment.name := by
  rw [List.map_flatMap, List.map_flatMap]
  apply List.flatMap_congr
  intro leaf _
  rw [names_assignments, names_assignments, same]

/-- Among the assignments of leaves, those that are not declared are the extras, for each leaf that
takes them. -/
theorem filter_assignments (within : ∀ leaf ∈ found, Within leaf composite.signature)
    (keywords : Fields Value) :
    (named (found.flatMap (·.assignments (composite.signature.boundTo keywords)))).filter
        (fun entry => !composite.signature.declares entry.1) =
      found.flatMap fun leaf =>
        if leaf.acceptsExtra then composite.signature.extras keywords else [] := by
  induction found with
  | nil => rfl
  | cons leaf rest ih =>
    have inner := within leaf List.mem_cons_self
    have later := ih fun other member => within other (List.mem_cons_of_mem _ member)
    have params : (named (leaf.params.map
        (Property.step · (composite.signature.boundTo keywords)))).filter
          (fun entry => !composite.signature.declares entry.1) = [] := by
      rw [List.filter_eq_nil_iff]
      intro entry member
      obtain ⟨step, listed, rfl⟩ := List.mem_map.mp member
      obtain ⟨param, declared, rfl⟩ := List.mem_map.mp listed
      simp [Decode.Property.step, inner.declares param declared]
    unfold named at later params ⊢
    rw [List.flatMap_cons, List.flatMap_cons, List.map_append, List.filter_append, later,
      assignments_eq, List.map_append, List.filter_append, params, List.nil_append]
    congr 1
    cases takes : leaf.catchAll with
    | none => simp [Signature.acceptsExtra, takes]
    | some catchAll =>
      have all : (composite.signature.extras keywords).filter
          (fun entry => !composite.signature.declares entry.1) =
            composite.signature.extras keywords :=
        List.filter_eq_self.mpr fun entry member => by simp [(Signature.mem_extras.mp member).2]
      simpa [Signature.acceptsExtra, takes, CatchAll.step, Signature.boundTo,
        Function.comp_def] using all

/-- Fields that are inserted once or more often come once, in their order. -/
theorem names_repeated {extra : Fields Value} (distinct : Fields.Distinct extra)
    (taken : extra ≠ [] → ∃ leaf ∈ found, leaf.acceptsExtra = true) :
    Fields.names (Fields.insertAll [] (found.flatMap fun leaf =>
      if leaf.acceptsExtra then extra else [])) = Fields.names extra := by
  induction found with
  | nil =>
    cases extra with
    | nil => rfl
    | cons entry rest =>
      obtain ⟨leaf, member, -⟩ := taken (List.cons_ne_nil _ _)
      cases member
  | cons leaf rest ih =>
    rw [List.flatMap_cons]
    by_cases accepts : leaf.acceptsExtra = true
    · have first : Fields.insertAll [] extra = extra := Fields.ofList_of_distinct distinct
      rw [if_pos accepts, Fields.insertAll_append, first]
      apply Fields.names_insertAll_of_subset
      intro name member
      obtain ⟨entry, listed, rfl⟩ := List.mem_map.mp member
      obtain ⟨other, -, held⟩ := List.mem_flatMap.mp listed
      split at held
      · exact Fields.name_mem held
      · cases held
    · rw [if_neg accepts, List.nil_append]
      refine ih fun some => ?_
      obtain ⟨other, member, takes⟩ := taken some
      cases List.mem_cons.mp member with
      | inl same => exact absurd (same ▸ takes) accepts
      | inr later => exact ⟨other, later, takes⟩

end

/-! ## Coercing again -/

section

variable {names : NameTable} {fuel : Nat}

/-- What a value was coerced to is what the data that was read for it is coerced to. -/
theorem coerce_again (wellFormed : registry.WellFormed)
    (returning : Returning registry names (castWith registry fuel)) {type : TypeExpr}
    {caster : Caster} (fits : Fits True type caster) (restorable : registry.Restorable caster)
    {given value data : Value} (lifted : given.Lifted)
    (returns : (given.isNull || registry.conforms given type) = false →
      registry.KeysReturn names caster given ∧
        registry.DispatchesReturn names caster given value)
    (texts : value.TextsReturn) (rereads : Rereads (registry.keyOf names) value data)
    {before later : NameTable} (sound : before.Sound) (grows : Grows later names) {name : String}
    (coerced : Coerced registry (castWith registry fuel) before later ⟨name, type, caster, given⟩
      value)
    {enough : Nat} (bound : layers registry caster data ≤ enough) :
    (coerce registry (castWith registry enough) name type caster data).run names =
      (.ok value, names) := by
  obtain ⟨start, stop, earlier, afterwards, ran⟩ := coerced
  unfold coerce at ran
  split at ran
  · rename_i kept
    cases ran
    rw [rereads.of_lifted lifted, coerce, if_pos kept]
    rfl
  · rename_i casted
    have decoded : (given.isNull || registry.conforms given type) = false := by simpa using casted
    obtain ⟨keys, dispatches⟩ := returns decoded
    have passage : Passage registry names caster given value data :=
      ⟨restorable, lifted, keys, dispatches, texts, rereads⟩
    have result := run_adapt_ok.mp ran
    unfold coerce
    split
    · rename_i kept
      -- What is kept now was not kept before; it is what the cast gave.
      have same : data = value := by
        cases Bool.or_eq_true_iff.mp kept with
        | inl null =>
          cases data with
          | null => exact (null_again wellFormed passage result).symm
          | _ => cases null
        | inr conforms =>
          refine (conforms_again wellFormed fits passage result conforms).resolve_right ?_
          intro takes
          rw [takes given value fuel start stop result, Bool.or_true] at decoded
          cases decoded
      rw [same]
      rfl
    · refine run_adapt_ok.mpr
        (returning caster given value data before passage sound ?_ enough bound)
      exact ⟨start, stop, earlier, afterwards.trans grows, result⟩

/-- Assignments that each give an attribute its value again put all of them in place. -/
theorem assignAll_again {cast : Cast} {attributes : Fields Value} {steps : List Assignment}
    (each : ∀ step ∈ steps, ∃ value, Fields.get? attributes step.name = some value ∧
      (coerce registry cast step.name step.type step.caster step.value).run names =
        (.ok value, names)) (assigned : Fields Value) :
    ∃ result, (assignAll registry cast steps assigned).run names = (.ok result, names) ∧
      ∀ name, Fields.get? result name =
        if name ∈ steps.map Assignment.name then Fields.get? attributes name
        else Fields.get? assigned name := by
  induction steps generalizing assigned with
  | nil => exact ⟨assigned, rfl, fun name => rfl⟩
  | cons step rest ih =>
    obtain ⟨value, held, coerced⟩ := each step List.mem_cons_self
    obtain ⟨result, ran, found⟩ := ih (fun other member =>
      each other (List.mem_cons_of_mem _ member)) (Fields.insert assigned step.name value)
    refine ⟨result, run_bind_ok.mpr ⟨value, names, coerced, ran⟩, fun name => ?_⟩
    rw [found, Fields.get?_insert, List.map_cons]
    by_cases later : name ∈ rest.map Assignment.name
    · rw [if_pos later, if_pos (List.mem_cons_of_mem _ later)]
    · rw [if_neg later]
      by_cases same : name = step.name
      · subst same
        rw [if_pos rfl, if_pos List.mem_cons_self, held]
      · rw [if_neg same, if_neg]
        rw [List.mem_cons, not_or]
        exact ⟨same, later⟩

end

/-! ## Layers -/

theorem height_of_assigns {composite : Composite} {step : Assignment}
    (assigns : composite.Assigns step) {name : String}
    (present : Fields.get? registry.composites name = some composite) :
    step.caster.height ≤ casterHeight registry := by
  cases assigns with
  | declared held _ caster =>
    rw [caster]
    exact height_of_property present (Fields.value_mem (Fields.mem_of_get? held))
  | undeclared _ takes _ caster =>
    rw [caster]
    exact height_of_catchAll present takes

/-! ## Filling again -/

/-- Entries that correspond are found under the same names. -/
theorem related_of_get? {related : Value → Value → Prop} {fields others : Fields Value}
    (each : List.Forall₂ (fun entry other => other.1 = entry.1 ∧ related entry.2 other.2)
      fields others) {name : String} {value data : Value}
    (found : Fields.get? fields name = some value) (read : Fields.get? others name = some data) :
    related value data := by
  induction each with
  | nil => cases found
  | cons first _ ih =>
    rw [Fields.get?_cons] at found read
    rw [first.1] at read
    split at found
    · rename_i same
      rw [if_pos same, Option.some.injEq] at read
      rw [Option.some.injEq] at found
      rw [← found, ← read]
      exact first.2
    · rename_i different
      rw [if_neg different] at read
      exact ih found read

section

variable {names : NameTable} {cast : Cast} {composite : Composite} {name : String}
  {keywords again attributes : Fields Value} {before later : NameTable}

/-- Keywords that come back under all names of the attributes are accepted again. -/
theorem accepts_again (own : composite.WellFormed registry)
    (accepts : composite.signature.Accepts keywords)
    (filled : Filled registry cast composite keywords before later attributes)
    (same : Fields.names again = Fields.names attributes) :
    composite.signature.Accepts again where
  supplied := by
    intro param member
    have held := own.property_of_mem (own.params ▸ member)
    obtain ⟨given, value, -, assigned, -⟩ := filled.declared param.name param held
    have among : param.name ∈ Fields.names again :=
      same ▸ Fields.mem_names_iff.mpr ⟨value, assigned⟩
    obtain ⟨data, keyword⟩ := Fields.mem_names_iff.mp among
    rw [Property.supplied_of_get? keyword]
    exact Option.some_ne_none data
  extra := by
    intro some
    obtain ⟨entry, member⟩ := List.exists_mem_of_ne_nil _ some
    obtain ⟨held, undeclared⟩ := Signature.mem_extras.mp member
    have stored : entry.1 ∈ Fields.names attributes := same ▸ Fields.name_mem held
    have absent := Fields.get?_eq_none_iff.mp (own.undeclared_iff.mp undeclared)
    have keyword := (filled.only entry.1 stored).resolve_left absent
    obtain ⟨given, listed, -⟩ := List.mem_map.mp (Signature.mem_names_extras.mpr
      ⟨keyword, undeclared⟩)
    exact accepts.extra (List.ne_nil_of_mem listed)

section

variable (wellFormed : registry.WellFormed)
  (present : Fields.get? registry.composites name = some composite)
  (distinct : Fields.Distinct keywords) (accepts : composite.signature.Accepts keywords)
  {depth : Nat} {found : List Signature}
  (held : leaves registry depth composite.initializer = some found)
  (ran : (assignAll registry cast
    (found.flatMap (·.assignments (composite.signature.boundTo keywords))) []).run before =
      (.ok attributes, later))
  (same : Fields.names again = Fields.names attributes)

include wellFormed present distinct accepts held ran same

/-- The extras come back in the order in which they were given. -/
theorem names_extras_again :
    Fields.names (composite.signature.extras again) =
      Fields.names (composite.signature.extras keywords) := by
  have own := (wellFormed.composites name composite present).2
  have nested := wellFormed.nested name composite present
  have within : ∀ leaf ∈ found, Within leaf composite.signature := fun leaf member =>
    leaves_within wellFormed.nested nested held member
  have extraDistinct : Fields.Distinct (composite.signature.extras keywords) :=
    Signature.distinct_filter distinct _
  have taken : composite.signature.extras keywords ≠ [] →
      ∃ leaf ∈ found, leaf.acceptsExtra = true := by
    intro some
    have takes := accepts.extra some
    rw [Signature.acceptsExtra, own.catchAll, (leaves_declare wellFormed present held).2,
      lastCatchAll] at takes
    obtain ⟨way, last⟩ := Option.isSome_iff_exists.mp takes
    obtain ⟨leaf, member, own⟩ := List.mem_filterMap.mp (List.mem_of_getLast? last)
    exact ⟨leaf, member, by rw [Signature.acceptsExtra, own, Option.isSome_some]⟩
  calc Fields.names (composite.signature.extras again)
      = (Fields.names attributes).filter fun name => !composite.signature.declares name := by
        rw [← same]
        exact Fields.names_filter (fun name => !composite.signature.declares name) again
    _ = (Fields.names (Fields.insertAll [] (named (found.flatMap
          (·.assignments (composite.signature.boundTo keywords)))))).filter
            fun name => !composite.signature.declares name := by
        rw [assignAll_names ran]
        rfl
    _ = Fields.names (Fields.insertAll [] (found.flatMap fun leaf =>
          if leaf.acceptsExtra then composite.signature.extras keywords else [])) := by
        rw [← Fields.names_filter, ← filter_assignments within keywords]
        exact congrArg Fields.names
          (Fields.filter_insertAll (fun name => !composite.signature.declares name) [] _)
    _ = Fields.names (composite.signature.extras keywords) := names_repeated extraDistinct taken

/-- Filling from keywords with the names of the attributes gives attributes of these names in their
order. -/
theorem assignAll_names_again {other : Cast} {result : Fields Value} {start stop : NameTable}
    (ranAgain : (assignAll registry other
      (found.flatMap (·.assignments (composite.signature.boundTo again))) []).run start =
        (.ok result, stop)) :
    Fields.names result = Fields.names attributes := by
  have extras := names_extras_again wellFormed present distinct accepts held ran same
  rw [assignAll_names ran, assignAll_names ranAgain]
  apply Fields.names_insertAll_congr rfl
  have congr := @names_assignments_congr found (composite.signature.boundTo again)
    (composite.signature.boundTo keywords) extras
  exact (names_named _).trans (congr.trans (names_named _).symm)

/-- Where every attribute is coerced to one of some values, filling gives these values. -/
theorem assignments_again (descends : registry.Descends) (agree : registry.AncestorsAgree name)
    (filled : Filled registry cast composite keywords before later attributes)
    {values : Fields Value}
    (order : Fields.names values = Fields.names attributes) {other : Cast}
    (coerces : ∀ step value, composite.Assigns step →
      Fields.get? values step.name = some value →
      Fields.get? again step.name = some step.value →
        (coerce registry other step.name step.type step.caster step.value).run names =
          (.ok value, names)) :
    (assignAll registry other
      (found.flatMap (·.assignments (composite.signature.boundTo again))) []).run names =
        (.ok values, names) := by
  have own := (wellFormed.composites name composite present).2
  have againDistinct : Fields.Distinct again := by
    rw [Fields.Distinct, same]
    exact filled.distinct
  have given : ∀ param ∈ composite.signature.params, param.name ∈ Fields.names again := by
    intro param member
    obtain ⟨_, value, -, assigned, -⟩ := filled.declared param.name param
      (own.property_of_mem (own.params ▸ member))
    exact same ▸ Fields.mem_names_iff.mpr ⟨value, assigned⟩
  have each : ∀ step ∈ found.flatMap (·.assignments (composite.signature.boundTo again)),
      ∃ value, Fields.get? values step.name = some value ∧
        (coerce registry other step.name step.type step.caster step.value).run names =
          (.ok value, names) := by
    intro step member
    obtain ⟨leaf, leafMember, stepMember⟩ := List.mem_flatMap.mp member
    have agrees := leaves_agree wellFormed descends agree present held leafMember
    obtain ⟨keyword, assigns⟩ := agrees.assigns own againDistinct given stepMember
    have stored : step.name ∈ Fields.names values :=
      order ▸ same ▸ Fields.mem_names_iff.mpr ⟨step.value, keyword⟩
    obtain ⟨value, assigned⟩ := Fields.mem_names_iff.mp stored
    exact ⟨value, assigned, coerces step value assigns assigned keyword⟩
  obtain ⟨result, ranAgain, found⟩ := assignAll_again each []
  have listed : Fields.names values = Fields.names result :=
    order.trans
      (assignAll_names_again wellFormed present distinct accepts held ran same ranAgain).symm
  have valuesDistinct : Fields.Distinct values := by
    rw [Fields.Distinct, order]
    exact filled.distinct
  have equal : values = result := by
    refine Fields.ext valuesDistinct listed fun name member => ?_
    have assigned := (mem_assignAll_names ranAgain).mp (listed ▸ member)
    rw [ne_eq, lastStep_eq_none_iff, not_not] at assigned
    rw [found, if_pos (assigned.resolve_left (by simp [Fields.names]))]
  rw [ranAgain, equal]

end

end

end Decode

end TypedSchema
