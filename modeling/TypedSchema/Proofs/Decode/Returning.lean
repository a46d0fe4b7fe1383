import TypedSchema.Proofs.Decode.Refilling

/-!
Casts return. Whatever plain data was cast to by a caster whose casts can be undone is given again
for the data that it is written as, provided that all keys and texts in it return.
-/

namespace TypedSchema

namespace Decode

open NameTable (Grows)
open Value (Lifted Rereads)

variable {registry : Registry} {names : NameTable}

/-! ## Keys that return -/

section

variable {composite : Composite} {entries : Fields Value}

variable {special : SpecialNames} (sound : Naming.Sound special)
  (returns : ∀ key ∈ Fields.names entries, composite.returned special key = key)

include sound returns

theorem externalName_attributeOf {key : String} (member : key ∈ Fields.names entries) :
    composite.externalName (composite.attributeOf key) special = key := by
  have same := returns key member
  rwa [Composite.returned, Composite.internalName_fst sound] at same

theorem internalEntries_distinct (distinct : Fields.Distinct entries) :
    Fields.Distinct (composite.internalEntries entries) := by
  have names : Fields.names (composite.internalEntries entries) =
      (Fields.names entries).map composite.attributeOf := by
    simp [Fields.names, Composite.internalEntries, Function.comp_def]
  rw [Fields.Distinct, names]
  refine List.Nodup.map_on (fun first firstMember second secondMember same => ?_) distinct
  rw [← externalName_attributeOf sound returns firstMember, same,
    externalName_attributeOf sound returns secondMember]

/-- Every attribute of a filled object is that of its key, and its key needs no special name that
there is not. -/
theorem attribute_returns (own : composite.WellFormed registry) {cast : Cast}
    {before later : NameTable} {attributes : Fields Value}
    (filled :
      Filled registry cast composite (composite.internalEntries entries) before later attributes)
    (settled : ∀ key ∈ Fields.names entries, composite.Escapes key → key ∈ special)
    {name : String} (member : name ∈ Fields.names attributes) :
    composite.attributeOf (composite.externalName name special) = name ∧
      (composite.Escapes (composite.externalName name special) →
        composite.externalName name special ∈ special) := by
  cases held : Fields.get? composite.properties name with
  | some property =>
    obtain ⟨declared, back⟩ := own.attributeOf_external held
    have external : composite.externalName name special = property.external := by
      rw [Composite.externalName, Composite.property?, held]
    rw [external]
    exact ⟨back, fun escapes => absurd escapes.1 declared⟩
  | none =>
    have undeclared := Fields.get?_eq_none_iff.mp held
    have keyword := (filled.only name member).resolve_left undeclared
    obtain ⟨entry, listed, rfl⟩ := List.mem_map.mp keyword
    obtain ⟨key, keyMember, same⟩ := Composite.mem_internalEntries listed
    have among : key ∈ Fields.names entries := Fields.name_mem keyMember
    rw [← same, externalName_attributeOf sound returns among]
    exact ⟨rfl, settled key among⟩

end

/-! ## Objects -/

/-- The data that an object is read as: every attribute under its key, in its place. -/
theorem rereads_object {composite : Composite} {attributes : Fields Value} {data : Value}
    (present : Fields.get? registry.composites composite.name = some composite)
    (back : ∀ name ∈ Fields.names attributes, composite.attributeOf
      (composite.externalName name (names.of composite.name)) = name)
    (distinct : Fields.Distinct attributes)
    (rereads : Rereads (registry.keyOf names) (.object composite.name attributes) data) :
    ∃ again, data = .map again ∧
      Fields.names again = (Fields.names attributes).map
        (composite.externalName · (names.of composite.name)) ∧
      List.Forall₂ (fun entry other => other.1 = entry.1 ∧
        Rereads (registry.keyOf names) entry.2 other.2) attributes
        (composite.internalEntries again) := by
  obtain ⟨again, rfl, each⟩ := rereads.object
  have keyOf : ∀ name, registry.keyOf names composite.name name =
      composite.externalName name (names.of composite.name) := fun name => by
    rw [Registry.keyOf, present]
  have keys : Fields.names again = (Fields.names attributes).map
      (composite.externalName · (names.of composite.name)) := by
    have labels := Lists.map_of_related each fun entry other held => held.1.trans (keyOf entry.1)
    simpa [Fields.names, Function.comp_def] using labels
  have apart : Fields.Distinct again := by
    rw [Fields.Distinct, keys]
    refine List.Nodup.map_on (fun first firstMember second secondMember same => ?_) distinct
    rw [← back first firstMember, same, back second secondMember]
  refine ⟨again, by rw [Fields.ofList_of_distinct apart], keys, ?_⟩
  have members := (List.forall₂_and_left _ _).mpr
    ⟨fun entry member => back entry.1 (Fields.name_mem member), each⟩
  refine List.forall₂_map_right_iff.mpr (members.imp fun entry other held => ?_)
  obtain ⟨returned, key, reread⟩ := held
  refine ⟨?_, reread⟩
  show composite.attributeOf other.1 = entry.1
  rw [key, keyOf]
  exact returned

/-- The number of layers that plain data of an object takes. -/
def layersInside (registry : Registry) (entries : Fields Value) : Nat :=
  casterHeight registry + Value.rankOfEntries entries * (casterHeight registry + 1) + 1

theorem layers_inside {composite : Composite} {step : Assignment}
    (assigns : composite.Assigns step) {name : String}
    (present : Fields.get? registry.composites name = some composite) {entries : Fields Value}
    {key : String} (member : (key, step.value) ∈ entries) :
    layers registry step.caster step.value ≤ layersInside registry entries := by
  have height := height_of_assigns assigns present
  have lower : step.value.rank ≤ Value.rankOfEntries entries := rank_le_of_entry member
  have product := Nat.mul_le_mul_right (casterHeight registry + 1) lower
  unfold layers layersInside
  omega

/-- A value of a filled object, and what it was coerced from: null, or a value of the data. -/
theorem Filled.source {composite : Composite} (own : composite.WellFormed registry) {cast : Cast}
    {entries attributes : Fields Value} {before later : NameTable}
    (filled :
      Filled registry cast composite (composite.internalEntries entries) before later attributes)
    {step : Assignment} (assigns : composite.Assigns step) {value : Value}
    (assigned : Fields.get? attributes step.name = some value) :
    ∃ given, Coerced registry cast before later ⟨step.name, step.type, step.caster, given⟩ value ∧
      (given = .null ∨ ∃ key, (key, given) ∈ entries ∧ composite.attributeOf key = step.name) := by
  cases assigns with
  | @declared property held type caster =>
    obtain ⟨given, other, supplied, found, coerced⟩ := filled.declared step.name property held
    have named := (own.properties step.name property held).name
    rw [assigned] at found
    cases found
    rw [named, ← type, ← caster] at coerced
    refine ⟨given, coerced, ?_⟩
    unfold Property.supplied at supplied
    cases keyword : Fields.get? (composite.internalEntries entries) property.name with
    | some data =>
      simp only [keyword, Option.some.injEq] at supplied
      subst supplied
      obtain ⟨key, listed, same⟩ := Composite.mem_internalEntries (Fields.mem_of_get? keyword)
      exact .inr ⟨key, listed, same.trans named⟩
    | none =>
      cases (own.properties step.name property held).default with
      | inl required => simp [keyword, required] at supplied
      | inr null =>
        simp only [keyword, null, Option.some.injEq] at supplied
        exact .inl supplied.symm
  | @undeclared catchAll absent takes type caster =>
    have known := filled.only step.name (Fields.mem_names_iff.mpr ⟨value, assigned⟩)
    obtain ⟨given, keyword⟩ := Fields.mem_names_iff.mp
      (known.resolve_left (Fields.get?_eq_none_iff.mp absent))
    obtain ⟨way, other, ownTakes, found, coerced⟩ := filled.extra step.name given keyword absent
    rw [takes] at ownTakes
    cases ownTakes
    rw [assigned] at found
    cases found
    rw [← type, ← caster] at coerced
    obtain ⟨key, listed, same⟩ := Composite.mem_internalEntries (Fields.mem_of_get? keyword)
    exact ⟨given, coerced, .inr ⟨key, listed, same⟩⟩

/-- Casts in a registry whose types inherit as they should, with the special names at the end of a
first cast. -/
structure Setting (registry : Registry) (names : NameTable) : Prop where
  wellFormed : registry.WellFormed
  descends : registry.Descends
  sound : names.Sound
  covered : ∀ name ∈ Fields.names registry.composites, name ∈ Fields.names names

/-- What an attribute was written as is coerced to the value of the attribute again. -/
theorem Filled.coerce_again (setting : Setting registry names) {fuel : Nat}
    (returning : Returning registry names (castWith registry fuel)) {composite : Composite}
    (present : Fields.get? registry.composites composite.name = some composite)
    {entries attributes again : Fields Value}
    (passage : Passage registry names (.composite composite.name) (.map entries)
      (.object composite.name attributes) (.map again))
    {before later : NameTable} (sound : before.Sound) (grows : Grows later names)
    (filled : Filled registry (castWith registry fuel) composite
      (composite.internalEntries entries) before later attributes)
    (each : List.Forall₂ (fun entry other => other.1 = entry.1 ∧
      Rereads (registry.keyOf names) entry.2 other.2) attributes (composite.internalEntries again))
    {enough : Nat} (bound : layersInside registry again ≤ enough) {step : Assignment}
    (assigns : composite.Assigns step) {value : Value}
    (held : Fields.get? attributes step.name = some value)
    (keyword : Fields.get? (composite.internalEntries again) step.name = some step.value) :
    (coerce registry (castWith registry enough) step.name step.type step.caster
      step.value).run names = (.ok value, names) := by
  have wellFormed := setting.wellFormed
  have own := (wellFormed.composites composite.name composite present).2
  obtain ⟨given, coerced, origin⟩ := filled.source own assigns held
  obtain ⟨key, listed, -⟩ := Composite.mem_internalEntries (Fields.mem_of_get? keyword)
  have rereads := related_of_get? each held keyword
  have lifted : given.Lifted := by
    cases origin with
    | inl null => exact null ▸ .null
    | inr member =>
      obtain ⟨key, source, -⟩ := member
      cases passage.lifted with
      | map distinct lifted => exact lifted _ source
  have returns : (given.isNull || registry.conforms given step.type) = false →
      registry.KeysReturn names step.caster given ∧
        registry.DispatchesReturn names step.caster given value := by
    intro casted
    cases origin with
    | inl null =>
      rw [null] at casted
      cases casted
    | inr member =>
      obtain ⟨key, source, stored⟩ := member
      constructor
      · intro inside members decoded
        exact passage.keys inside members (assigns.decodes present source stored casted decoded)
      · intro dispatcher inside outcome dispatched
        exact passage.dispatches dispatcher inside outcome
          (assigns.dispatches present source stored casted held dispatched)
  exact Decode.coerce_again wellFormed returning (assigns.fits own)
    (passage.restorable.inner (assigns.reaches present)) lifted returns
    (passage.texts.field (Fields.mem_of_get? held)) rereads sound grows coerced
    (Nat.le_trans (layers_inside assigns present listed) bound)

/-- Reading the keys of an object again asks for no further special names. -/
theorem keywords_again (setting : Setting registry names) {composite : Composite}
    (present : Fields.get? registry.composites composite.name = some composite)
    {attributes again : Fields Value}
    (keys : Fields.names again = (Fields.names attributes).map
      (composite.externalName · (names.of composite.name)))
    (settled : ∀ name ∈ Fields.names attributes,
      composite.Escapes (composite.externalName name (names.of composite.name)) →
        composite.externalName name (names.of composite.name) ∈ names.of composite.name) :
    (keywords composite again names).2 = names := by
  refine keywords_snd_of_settled (setting.covered _
    (Fields.mem_names_iff.mpr ⟨composite, present⟩)) fun key member escapes => ?_
  rw [keys] at member
  obtain ⟨name, stored, rfl⟩ := List.mem_map.mp member
  exact settled name stored escapes

/-- Decoding what an object was written as gives the object, without further special names. -/
theorem fromEntries_again (setting : Setting registry names) {fuel : Nat}
    (returning : Returning registry names (castWith registry fuel)) {name : String}
    {composite : Composite} (present : Fields.get? registry.composites name = some composite)
    {entries : Fields Value} {result data : Value}
    (passage : Passage registry names (.composite name) (.map entries) result data)
    {before later : NameTable} (sound : before.Sound) (grows : Grows later names)
    (ran : (fromEntries registry (castWith registry fuel) composite entries).run before =
      (.ok result, later)) :
    ∃ again, data = .map again ∧ ∀ enough, layersInside registry again ≤ enough →
      (fromEntries registry (castWith registry enough) composite again).run names =
        (.ok result, names) := by
  have wellFormed := setting.wellFormed
  obtain ⟨rfl, own⟩ := wellFormed.composites name composite present
  have growing := castWith_growing registry fuel
  have special : Naming.Sound (names.of composite.name) := setting.sound composite.name
  cases passage.lifted with
  | map distinct lifted =>
    -- The keys of the data return, so each has an attribute of its own.
    have returns : ∀ key ∈ Fields.names entries,
        composite.returned (names.of composite.name) key = key :=
      passage.keys composite.name entries .self composite present
    have settled : ∀ key ∈ Fields.names entries, composite.Escapes key →
        key ∈ names.of composite.name := fun key member escapes =>
      grows.kept _ _ (fromEntries_settled growing ran key member escapes)
    have apart := internalEntries_distinct special returns distinct
    have readGrows := keywords_grows composite entries before
    have constructed := (fromEntries_ok sound).mp ran
    rw [Fields.ofList_of_distinct apart] at constructed
    obtain ⟨accepts, found, attributes, held, assigned, rfl⟩ :=
      (construct_ok wellFormed present apart).mp constructed
    have filled := assignAll_filled wellFormed growing present apart accepts held assigned
    have settles : ∀ name ∈ Fields.names attributes, _ := fun name =>
      attribute_returns special returns own filled settled
    -- What is read again has the attributes of the object as its keywords.
    obtain ⟨again, rfl, keys, each⟩ := rereads_object present
      (fun name member => (settles name member).1) filled.distinct passage.rereads
    have same : Fields.names (composite.internalEntries again) = Fields.names attributes :=
      Lists.map_of_related each fun entry other held => held.1
    have againApart : Fields.Distinct (composite.internalEntries again) := by
      rw [Fields.Distinct, same]
      exact filled.distinct
    refine ⟨again, rfl, fun enough bound => (fromEntries_ok setting.sound).mpr ?_⟩
    have coerces : ∀ step value, composite.Assigns step →
        Fields.get? attributes step.name = some value →
        Fields.get? (composite.internalEntries again) step.name = some step.value →
          (coerce registry (castWith registry enough) step.name step.type step.caster
            step.value).run names = (.ok value, names) := fun step value assigns held keyword =>
      filled.coerce_again setting returning present passage (sound.grow readGrows) grows each bound
        assigns held keyword
    have againAssigned := assignments_again wellFormed present apart accepts held assigned same
      setting.descends passage.restorable.ancestorsAgree filled rfl coerces
    have againAccepts := accepts_again own accepts filled same
    have constructedAgain := (construct_ok wellFormed present againApart).mpr
      ⟨againAccepts, found, attributes, held, againAssigned, rfl⟩
    rw [keywords_again setting present keys fun name stored => (settles name stored).2]
    have keywords :
        Fields.ofList (composite.internalEntries again) = composite.internalEntries again :=
      Fields.ofList_of_distinct againApart
    rw [← keywords] at constructedAgain
    exact constructedAgain

/-! ## Casts -/

theorem castWith_again (setting : Setting registry names) (fuel : Nat) :
    Returning registry names (castWith registry fuel) := by
  induction fuel with
  | zero =>
    intro caster value result data before passage sound casted
    obtain ⟨start, stop, -, -, ran⟩ := casted
    cases ran
  | succ fuel ih =>
    intro caster value result data before passage sound casted enough bound
    obtain ⟨start, stop, earlier, later, ran⟩ := casted
    have wellFormed := setting.wellFormed
    have positive : 0 < enough := by
      unfold layers at bound
      omega
    obtain ⟨rest, rfl⟩ := Nat.exists_eq_succ_of_ne_zero (Nat.ne_of_gt positive)
    cases caster with
    | identity =>
      cases castLayer_identity_ok ran
      rw [passage.rereads.of_lifted passage.lifted]
      rfl
    | scalar type =>
      obtain ⟨scalar, -⟩ := castLayer_scalar_ok.mp ran
      have again := castScalar_again scalar passage.texts passage.rereads
      exact castLayer_scalar_ok.mpr ⟨again, rfl⟩
    | list item =>
      obtain ⟨items, results, rfl, rfl, each⟩ :=
        castLayer_list_ok (castWith_growing registry fuel) ran
      obtain ⟨again, rfl, rereads⟩ := passage.rereads.list
      have returned : List.Forall₂ (fun result data =>
          (castWith registry rest item data).run names = (.ok result, names)) results again := by
        refine (passage.items each rereads).imp fun result data held => ?_
        obtain ⟨member, source, casted, own⟩ := held
        have lower := rank_le_of_item member
        have product := Nat.mul_le_mul_right (casterHeight registry + 1) lower
        refine ih item source result data before own sound
          (casted.widen earlier later) rest ?_
        simp only [layers, Caster.height, Value.rank, Nat.add_mul] at bound ⊢
        omega
      have items := castItems_again returned 0
      exact run_bind_ok.mpr ⟨results, names, run_adapt_ok.mpr items, rfl⟩
    | enumeration name =>
      obtain ⟨⟨enumeration, member, present, found, rfl⟩, -⟩ := castLayer_enumeration_ok.mp ran
      have again := passage.member wellFormed present found
      exact castLayer_enumeration_ok.mpr ⟨⟨enumeration, member, present, again, rfl⟩, rfl⟩
    | composite name =>
      obtain ⟨entries, composite, rfl, present, ran⟩ :=
        (castLayer_composite_ok wellFormed passage.lifted.plain).mp ran
      obtain ⟨again, rfl, decoded⟩ := fromEntries_again setting ih present passage
        (sound.grow earlier) later ran
      refine (castLayer_composite_ok wellFormed passage.plain).mpr
        ⟨again, composite, rfl, present, decoded rest ?_⟩
      simp only [layers, layersInside, Caster.height, Value.rank, Nat.add_mul] at bound ⊢
      omega
    | polymorph dispatcher =>
      obtain ⟨inside, branch, rfl, selected, casted⟩ :=
        castLayer_polymorph_ok passage.lifted.plain ran
      obtain ⟨again, rfl, alike⟩ :=
        passage.dispatches dispatcher inside result .self data passage.rereads
      -- The branch is chosen again, and its caster is lower than the polymorph.
      have listed := select_mem selected
      have lower := Caster.height_of_branch listed
      have own : Passage registry names branch.caster (.map inside) result (.map again) := {
        restorable := passage.restorable.inner (.branch .self listed)
        lifted := passage.lifted
        keys := fun name entries decoded => passage.keys name entries (.branch selected decoded)
        dispatches := fun other data outcome dispatched =>
          passage.dispatches other data outcome (.branch selected dispatched)
        texts := passage.texts
        rereads := passage.rereads }
      have returned := ih branch.caster (.map inside) result (.map again) before own sound
        (casted.widen earlier later) rest (by unfold layers at bound ⊢; omega)
      refine run_adapt_ok.mpr (run_bind_ok.mpr ⟨branch, names, ?_, run_adapt_ok.mpr returned⟩)
      rw [run_except, alike.select selected]

end Decode

end TypedSchema
