import TypedSchema.Proofs.OrderIndependence

/-!
When decoding changes how objects are written that were there before. The special names of a type
are shared by all its objects, so an attribute that is met as a key later is written under its own
name from then on. Nothing else is written differently.
-/

namespace TypedSchema

namespace Naming

/-- A name converts differently exactly if it has become special and its words do not give it. -/
theorem snakeToPascal_ne_iff {name : String} {special later : SpecialNames}
    (kept : name ∈ special → name ∈ later) (fresh : name ∈ later → name ∈ special ∨ Escaped name) :
    snakeToPascal name later ≠ snakeToPascal name special ↔
      (name ∉ special ∧ Escaped name ∧ join name.toList ≠ name.toList) ∧ name ∈ later := by
  -- A name that is special already, or that is not special yet, converts as before.
  by_cases listed : name ∈ later
  · by_cases held : name ∈ special
    · simp [snakeToPascal_of_mem listed, snakeToPascal_of_mem held, held]
    · have escaped : Escaped name := (fresh listed).resolve_left held
      have spelled : name = String.ofList (join name.toList) ↔
          join name.toList = name.toList := by
        constructor
        · intro same
          have characters := congrArg String.toList same
          rw [String.toList_ofList] at characters
          exact characters.symm
        · intro same
          rw [same, String.ofList_toList]
      rw [snakeToPascal_of_mem listed, snakeToPascal_of_not_mem held escaped.1, ne_eq, spelled]
      simp [held, listed, escaped]
  · have absent : name ∉ special := fun held => listed (kept held)
    simp [snakeToPascal, listed, absent]

end Naming

namespace Registry

variable {registry : Registry} {before after : NameTable}

/-- An attribute that no property declares and that is written as its words so far, but would be
written as it is if it became special. -/
structure Respellable (registry : Registry) (names : NameTable) (type name : String) : Prop where
  undeclared : ∀ composite, Fields.get? registry.composites type = some composite →
    composite.property? name = none
  plain : name ∉ names.of type
  escaped : Naming.Escaped name
  differs : Naming.join name.toList ≠ name.toList

/-- The attribute has become special. -/
structure Respells (registry : Registry) (before after : NameTable) (type name : String) :
    Prop extends registry.Respellable before type name where
  special : name ∈ after.of type

/-- A key changes with the attribute that becomes special, if conversion leaves alone what does. -/
theorem keyOf_ne_iff_of_kept {type name : String}
    (kept : name ∈ before.of type → name ∈ after.of type)
    (fresh : name ∈ after.of type → name ∈ before.of type ∨ Naming.Escaped name) :
    registry.keyOf after type name ≠ registry.keyOf before type name ↔
      registry.Respells before after type name := by
  have converts := Naming.snakeToPascal_ne_iff kept fresh
  have respells : registry.Respells before after type name ↔
      (∀ composite, Fields.get? registry.composites type = some composite →
        composite.property? name = none) ∧
      Naming.snakeToPascal name (after.of type) ≠ Naming.snakeToPascal name (before.of type) := by
    rw [converts]
    constructor
    · intro respells
      exact ⟨respells.undeclared, ⟨respells.plain, respells.escaped, respells.differs⟩,
        respells.special⟩
    · rintro ⟨undeclared, ⟨plain, escaped, differs⟩, special⟩
      exact ⟨⟨undeclared, plain, escaped, differs⟩, special⟩
  rw [respells]
  cases present : Fields.get? registry.composites type with
  | none => simp [keyOf, present]
  | some composite =>
    cases declared : composite.property? name with
    | some property => simp [keyOf, present, Composite.externalName, declared]
    | none => simp [keyOf, present, Composite.externalName, declared]

theorem keyOf_ne_iff (grows : NameTable.Grows before after) {type name : String} :
    registry.keyOf after type name ≠ registry.keyOf before type name ↔
      registry.Respells before after type name :=
  keyOf_ne_iff_of_kept (grows.kept type name) (grows.fresh type name)

section

variable (wellFormed : registry.WellFormed) {names : NameTable} (sound : names.Sound)
  (batch : List (String × Json))

include wellFormed sound

theorem decodeAll_grows : NameTable.Grows names (registry.decodeAll batch names).2 :=
  Decode.runAll_grows (.sound_tables _) (batch_steady wellFormed batch) sound

/-- Names that become special are keys of the data. -/
theorem hasKey_of_mem_decodeAll {type name : String}
    (member : name ∈ (registry.decodeAll batch names).2.of type) :
    name ∈ names.of type ∨ ∃ datum ∈ batch, (Value.ofJson datum.2).HasKey name := by
  have each : ∀ action ∈ batch.map registry.decodeOne, Decode.SteadyRun NameTable.Sound
      (fun key => ∃ datum ∈ batch, (Value.ofJson datum.2).HasKey key) action := by
    intro action listed
    obtain ⟨datum, held, rfl⟩ := List.mem_map.mp listed
    exact decodeOne_steady wellFormed fun key has => ⟨datum, held, has⟩
  exact Decode.runAll_keys (.sound_tables _) each sound member

end

end Registry

namespace Document

/-- What decoding a batch changes about how values are written. A key changes exactly for an
attribute that no property declares and that becomes special; such an attribute is a key somewhere
in the batch; and a value in which no key changes is written as before. -/
theorem decodeAll_respells {document : Document} {registry : Registry}
    (compiled : document.compile = .ok registry)
    {names : NameTable} (reached : registry.Reachable names) (batch : List (String × Json)) :
    (∀ type name,
      registry.keyOf (registry.decodeAll batch names).2 type name ≠
          registry.keyOf names type name ↔
        registry.Respells names (registry.decodeAll batch names).2 type name) ∧
      (∀ type name,
        registry.Respells names (registry.decodeAll batch names).2 type name →
          ∃ datum ∈ batch, (Value.ofJson datum.2).HasKey name) ∧
      ∀ value : Value,
        (∀ type attributes, Value.Occurs (.object type attributes) value →
          ∀ name ∈ Fields.names attributes,
            ¬registry.Respells names (registry.decodeAll batch names).2 type name) →
          value.toJson (registry.keyOf (registry.decodeAll batch names).2) =
            value.toJson (registry.keyOf names) := by
  have wellFormed := compile_wellFormed compiled
  have sound := wellFormed.reachable_sound reached
  have grows := Registry.decodeAll_grows wellFormed sound batch
  refine ⟨fun type name => Registry.keyOf_ne_iff grows, fun type name respells => ?_,
    fun value kept => ?_⟩
  · exact (Registry.hasKey_of_mem_decodeAll wellFormed sound batch respells.special).resolve_left
      respells.plain
  · -- Written differently would be some attribute that was respelled, and there is none.
    refine Value.toJson_congr value fun type attributes occurs name member => ?_
    by_contra changed
    exact kept type attributes occurs name member ((Registry.keyOf_ne_iff grows).mp changed)

theorem decodeAll_respells_samples :
    ∃ registry, openBags.compile = .ok registry ∧ registry.Reachable registry.names ∧
      (∀ type name,
        registry.keyOf (registry.decodeAll samples registry.names).2 type name ≠
            registry.keyOf registry.names type name ↔
          registry.Respells registry.names (registry.decodeAll samples registry.names).2 type
            name) ∧
      (∀ type name,
        registry.Respells registry.names (registry.decodeAll samples registry.names).2 type name →
          ∃ datum ∈ samples, (Value.ofJson datum.2).HasKey name) ∧
      ∀ value : Value,
        (∀ type attributes, Value.Occurs (.object type attributes) value →
          ∀ name ∈ Fields.names attributes,
            ¬registry.Respells registry.names (registry.decodeAll samples registry.names).2 type
              name) →
          value.toJson (registry.keyOf (registry.decodeAll samples registry.names).2) =
            value.toJson (registry.keyOf registry.names) := by
  have compiles : openBags.compile.toBool = true := by decide +kernel
  obtain ⟨registry, compiled⟩ := Outcomes.toBool_iff.mp compiles
  exact ⟨registry, compiled, .start, decodeAll_respells compiled .start samples⟩

/-- How a bag is written before and after another one is decoded. -/
def writeBetween (first second : Json) : Except Error (Json × Json) := do
  let registry ← openBags.compile
  let (bag, between) := (registry.decode "Bag" (.ofJson first)).run registry.names
  let (other, after) := (registry.decode "Bag" (.ofJson second)).run between
  let bag ← bag
  let _ ← other
  return (← bag.toJson (registry.keyOf between), ← bag.toJson (registry.keyOf after))

theorem writeBetween_ok {first second earlier later : Json}
    (wrote : writeBetween first second = .ok (earlier, later)) :
    ∃ registry bag between other after, openBags.compile = .ok registry ∧
      (registry.decode "Bag" (.ofJson first)).run registry.names = (.ok bag, between) ∧
      (registry.decode "Bag" (.ofJson second)).run between = (.ok other, after) ∧
      bag.toJson (registry.keyOf between) = .ok earlier ∧
      bag.toJson (registry.keyOf after) = .ok later := by
  obtain ⟨registry, compiled, rest⟩ := Outcomes.bind_ok.mp wrote
  obtain ⟨bag, ran, rest⟩ := Outcomes.bind_ok.mp rest
  obtain ⟨other, ranOther, rest⟩ := Outcomes.bind_ok.mp rest
  obtain ⟨one, wroteBefore, rest⟩ := Outcomes.bind_ok.mp rest
  obtain ⟨two, wroteAfter, last⟩ := Outcomes.bind_ok.mp rest
  cases last
  exact ⟨registry, bag, _, other, _, compiled, Prod.ext ran rfl, Prod.ext ranOther rfl,
    wroteBefore, wroteAfter⟩

/-- Decoding a bag with another spelling of a key changes how the first bag is written. -/
theorem decode_respells_key :
    ∃ registry bag between other after earlier later, openBags.compile = .ok registry ∧
      (registry.decode "Bag" (.ofJson (.object [("SampleMass", .integer 1)]))).run
        registry.names = (.ok bag, between) ∧
      (registry.decode "Bag" (.ofJson (.object [("sample_mass", .integer 2)]))).run between =
        (.ok other, after) ∧
      bag.toJson (registry.keyOf between) = .ok earlier ∧
      bag.toJson (registry.keyOf after) = .ok later ∧
      earlier.object?.map Fields.names = some ["SampleMass"] ∧
      later.object?.map Fields.names = some ["sample_mass"] ∧ earlier ≠ later := by
  have writes : (writeBetween (.object [("SampleMass", .integer 1)])
      (.object [("sample_mass", .integer 2)])).toOption.map (fun (earlier, later) =>
        (earlier.object?.map Fields.names, later.object?.map Fields.names)) =
          some (some ["SampleMass"], some ["sample_mass"]) := by decide +kernel
  cases wrote : writeBetween (.object [("SampleMass", .integer 1)])
      (.object [("sample_mass", .integer 2)]) with
  | error error =>
    rw [wrote] at writes
    cases writes
  | ok outcome =>
    obtain ⟨earlier, later⟩ := outcome
    rw [wrote] at writes
    obtain ⟨keysBefore, keysAfter⟩ := Prod.mk.inj (Option.some.inj writes)
    obtain ⟨registry, bag, between, other, after, compiled, ran, ranOther, before, behind⟩ :=
      writeBetween_ok wrote
    refine ⟨registry, bag, between, other, after, earlier, later, compiled, ran, ranOther, before,
      behind, keysBefore, keysAfter, fun same => ?_⟩
    rw [same] at keysBefore
    exact absurd (keysBefore.symm.trans keysAfter) (by decide)

end Document

end TypedSchema
