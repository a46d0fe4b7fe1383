import TypedSchema.Proofs.Compile.Compiled
import TypedSchema.Proofs.Decode.SteadyCasts

/-!
Decoding a batch of data does not depend on its order. The special names grow while the batch is
decoded, by names that conversion leaves alone anyway, so no datum changes what another one is
decoded as, and all orders end with the same special names.
-/

namespace TypedSchema

namespace Registry

variable {registry : Registry}

/-- Decoding of data from a document, under the name of a composite type. -/
def decodeOne (registry : Registry) (datum : String × Json) : Decode Value :=
  registry.decode datum.1 (.ofJson datum.2)

/-- Decodes a batch of data from documents in order, whether some of it fails or not. -/
def decodeAll (registry : Registry) (batch : List (String × Json)) :
    StateM NameTable (List (Except Error Value)) :=
  Decode.runAll (batch.map registry.decodeOne)

theorem decodeAll_cons (registry : Registry) (datum : String × Json) (rest : List (String × Json))
    (names : NameTable) :
    registry.decodeAll (datum :: rest) names =
      (((registry.decodeOne datum).run names).1 ::
          (registry.decodeAll rest ((registry.decodeOne datum).run names).2).1,
        (registry.decodeAll rest ((registry.decodeOne datum).run names).2).2) := by
  rw [decodeAll, List.map_cons, Decode.runAll_cons]
  rfl

/-- What data is decoded as with these special names, wherever an error arises. -/
def outcome (registry : Registry) (names : NameTable) (datum : String × Json) :
    Except Error Value :=
  ((registry.decodeOne datum).run names).1.mapError Error.unplaced

/-- Data from a document meets no keys but its own. -/
theorem decodeOne_steady (wellFormed : registry.WellFormed) {allowed : String → Prop}
    {datum : String × Json} (keys : (Value.ofJson datum.2).KeysWithin allowed) :
    Decode.SteadyRun NameTable.Sound allowed (registry.decodeOne datum) :=
  decode_steady wellFormed (.sound_tables _) datum.1
    ((Value.ofJson_plain datum.2).objectless.settled keys)

section

variable (wellFormed : registry.WellFormed) {names : NameTable} (sound : names.Sound)

include wellFormed sound

omit sound in
theorem batch_steady (batch : List (String × Json)) :
    ∀ action ∈ batch.map registry.decodeOne,
      Decode.SteadyRun NameTable.Sound (fun _ => True) action := by
  intro action member
  obtain ⟨datum, -, rfl⟩ := List.mem_map.mp member
  exact decodeOne_steady wellFormed fun _ _ => trivial

/-- Every datum of a batch is decoded as it would be on its own. -/
theorem decodeAll_results (batch : List (String × Json)) :
    (registry.decodeAll batch names).1.map (·.mapError Error.unplaced) =
      batch.map (registry.outcome names) := by
  have each := batch_steady wellFormed batch
  rw [decodeAll, Decode.runAll_results (.sound_tables _) each sound sound, List.map_map]
  rfl

/-- A batch adds the special names that its data adds on its own. -/
theorem mem_decodeAll {batch : List (String × Json)} {type name : String} :
    name ∈ (registry.decodeAll batch names).2.of type ↔ name ∈ names.of type ∨
      ∃ datum ∈ batch, name ∈ ((registry.decodeOne datum).run names).2.of type := by
  have each := batch_steady wellFormed batch
  rw [decodeAll, Decode.mem_runAll (.sound_tables _) each sound sound fun _ _ => id]
  simp only [List.mem_map, exists_exists_and_eq_and]

end

/-- Keys depend on which names are special, and not on the order in which they became so. -/
theorem keyOf_congr {names other : NameTable}
    (same : ∀ type name, name ∈ names.of type ↔ name ∈ other.of type) :
    registry.keyOf names = registry.keyOf other := by
  funext type name
  have contains : (names.of type).contains name = (other.of type).contains name := by
    rw [Bool.eq_iff_iff, SpecialNames.contains_iff, SpecialNames.contains_iff, same]
  have converts : Naming.snakeToPascal name (names.of type) =
      Naming.snakeToPascal name (other.of type) := by
    simp only [Naming.snakeToPascal, contains]
  simp only [keyOf, Composite.externalName, converts]

end Registry

namespace Document

/-- Whatever was decoded before, a batch gives every datum what it would give it on its own, but for
the place of an error, and any other order of the batch leaves the same special names. All objects
are then written alike. -/
theorem decodeAll_permuted {document : Document} {registry : Registry}
    (compiled : document.compile = .ok registry)
    {names : NameTable} (reached : registry.Reachable names) {batch other : List (String × Json)}
    (permuted : batch.Perm other) :
    (registry.decodeAll batch names).1.map (·.mapError Error.unplaced) =
        batch.map (registry.outcome names) ∧
      (registry.decodeAll other names).1.map (·.mapError Error.unplaced) =
        other.map (registry.outcome names) ∧
      (∀ type name, name ∈ (registry.decodeAll batch names).2.of type ↔
        name ∈ (registry.decodeAll other names).2.of type) ∧
      ∀ value : Value, value.toJson (registry.keyOf (registry.decodeAll batch names).2) =
        value.toJson (registry.keyOf (registry.decodeAll other names).2) := by
  have wellFormed := compile_wellFormed compiled
  have sound := wellFormed.reachable_sound reached
  have same : ∀ type name, name ∈ (registry.decodeAll batch names).2.of type ↔
      name ∈ (registry.decodeAll other names).2.of type := by
    intro type name
    -- Each order adds what its data adds on its own, and the data is the same.
    rw [Registry.mem_decodeAll wellFormed sound, Registry.mem_decodeAll wellFormed sound]
    simp only [permuted.mem_iff]
  refine ⟨Registry.decodeAll_results wellFormed sound batch,
    Registry.decodeAll_results wellFormed sound other, same, fun value => ?_⟩
  rw [Registry.keyOf_congr same]

/-- Bags of anything. -/
def openBags : Document where
  definitions := [("Bag", ⟨[("type", .string "object"), ("additionalProperties", .bool true)]⟩)]

/-- Two bags whose keys have the same attribute, and something that is no bag. -/
def samples : List (String × Json) :=
  [("Bag", .object [("SampleMass", .integer 1)]), ("Bag", .object [("sample_mass", .integer 2)]),
    ("Bag", .string "none")]

theorem decodeAll_permuted_samples :
    ∃ registry, openBags.compile = .ok registry ∧ registry.Reachable registry.names ∧
      samples.Perm samples.reverse ∧
      (registry.decodeAll samples registry.names).1.map (·.mapError Error.unplaced) =
        samples.map (registry.outcome registry.names) ∧
      (registry.decodeAll samples.reverse registry.names).1.map (·.mapError Error.unplaced) =
        samples.reverse.map (registry.outcome registry.names) ∧
      (∀ type name, name ∈ (registry.decodeAll samples registry.names).2.of type ↔
        name ∈ (registry.decodeAll samples.reverse registry.names).2.of type) ∧
      ∀ value : Value,
        value.toJson (registry.keyOf (registry.decodeAll samples registry.names).2) =
          value.toJson (registry.keyOf (registry.decodeAll samples.reverse registry.names).2) := by
  have compiles : openBags.compile.toBool = true := by decide +kernel
  have permuted : samples.Perm samples.reverse := samples.reverse_perm.symm
  obtain ⟨registry, compiled⟩ := Outcomes.toBool_iff.mp compiles
  exact ⟨registry, compiled, .start, permuted,
    decodeAll_permuted compiled .start permuted⟩

end Document

end TypedSchema
