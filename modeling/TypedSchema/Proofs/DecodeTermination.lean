import TypedSchema.Proofs.Decode.Continuing
import TypedSchema.Proofs.FaultSurface

/-!
Decoding ends. The bounds on layers and generations only make the recursion structural: in the
registry of a document no value reaches them, with any others that are as high the same happens, and
what happens is a value or a fault of the data.
-/

namespace TypedSchema

namespace Registry

open Decode

/-- Casts a value with so many layers. -/
def castWithin (registry : Registry) (layers : Nat) (caster : Caster) (value : Value) :
    Decode Value :=
  ExceptT.adapt (Refusal.toError (.value caster)) (castWith registry layers caster value)

/-- An object of a composite type from an object or plain data, which are cast with so many
layers. -/
def convertWithin (registry : Registry) (layers : Nat) (composite : Composite) (value : Value) :
    Decode Value :=
  match value with
  | .map entries => fromEntries registry (castWith registry layers) composite entries
  | .object type attributes => do
    if registry.isSubtype type composite.name then return value
    else
      fromEntries registry (castWith registry layers) composite
        (← Decode.plainEntries registry type attributes)
  | other =>
    throw ((Error.type [] [] (.notConvertible composite.name other)).withinType composite.name)

variable {registry : Registry}

theorem cast_eq_castWithin (caster : Caster) (value : Value) :
    registry.cast caster value =
      registry.castWithin (layers registry caster value) caster value := rfl

theorem convert_eq_convertWithin (composite : Composite) (value : Value) :
    registry.convert composite value =
      registry.convertWithin (layers registry (.composite composite.name) value) composite value :=
  rfl

/-! ## More layers -/

theorem convertWithin_continues {fewer more : Nat} (bound : fewer ≤ more) (composite : Composite)
    (value : Value) :
    Continues Error.IsFault (registry.convertWithin fewer composite value)
      (registry.convertWithin more composite value) := by
  have continues := castWith_continues registry bound
  unfold convertWithin
  split
  · exact fromEntries_continues continues ..
  · split
    · exact .refl _
    · exact .bind (.refl _) fun entries => fromEntries_continues continues ..
  · exact .refl _

section

variable (wellFormed : registry.WellFormed) (closed : registry.Closed)
  (reached : registry.Reached)

include wellFormed closed reached

/-- Any numbers of layers that are enough make the same cast. -/
theorem castWith_eq {caster : Caster} (known : caster.Known registry) {value : Value}
    {fewer more : Nat} (enough : Suffices registry fewer caster value)
    (also : Suffices registry more caster value) :
    castWith registry fewer caster value = castWith registry more caster value := by
  have fails := fun layers => castWith_fails wellFormed closed reached layers caster value known
  rcases Nat.le_total fewer more with bound | bound
  · exact (castWith_continues registry bound caster value).eq_of_fails (fails fewer enough)
  · exact ((castWith_continues registry bound caster value).eq_of_fails (fails more also)).symm

theorem castWithin_eq {caster : Caster} (known : caster.Known registry) {value : Value} {more : Nat}
    (enough : layers registry caster value ≤ more) :
    registry.castWithin more caster value = registry.cast caster value := by
  have first := Suffices.of_layers registry caster value
  rw [cast_eq_castWithin, castWithin, castWithin,
    castWith_eq wellFormed closed reached known (first.mono enough) first]

theorem convertWithin_eq {name : String} {composite : Composite}
    (named : registry.compositeNamed name = .ok composite) {value : Value} {more : Nat}
    (enough : layers registry (.composite name) value ≤ more) :
    registry.convertWithin more composite value = registry.decode name value := by
  have present := named
  rw [wellFormed.compositeNamed, Registry.composite, found_ok] at present
  have own : composite.name = name := (wellFormed.composites name composite present).1
  have fails := convert_fails wellFormed closed reached present value
  rw [wellFormed.decode_eq present]
  rw [convert_eq_convertWithin] at fails ⊢
  exact ((convertWithin_continues (own ▸ enough) composite value).eq_of_fails fails).symm

end

end Registry

namespace Document

open Decode

/-- In the registry of a document, decoding any value as any class, making an object of it from any
arguments and casting any value with any registered caster give a value or fail with a fault. That
no bound cuts them off shows as no higher one makes a difference, neither for the layers of a cast
nor for the generations of an initializer. -/
theorem compile_decoding_ends {document : Document} {registry : Registry}
    (compiled : document.compile = .ok registry) :
    (∀ name composite, registry.compositeNamed name = .ok composite →
      (∀ value, GivesOrFaults (registry.decode name value) ∧
        ∀ more, layers registry (.composite name) value ≤ more →
          registry.convertWithin more composite value = registry.decode name value) ∧
      (∀ arguments, GivesOrFaults (registry.construct name arguments)) ∧
      ∀ more, generations registry ≤ more → ∀ cast type arguments assigned,
        runInitializer registry cast more type composite.initializer arguments assigned =
          runInitializer registry cast (generations registry) type composite.initializer arguments
            assigned) ∧
    ∀ name entry, registry.entry name = .ok entry → ∀ value,
      GivesOrFaults (registry.cast entry.caster value) ∧
        ∀ more, layers registry entry.caster value ≤ more →
          registry.castWithin more entry.caster value = registry.cast entry.caster value := by
  have wellFormed := compile_wellFormed compiled
  have closed := compile_closed compiled
  have reached := compile_reached compiled
  refine ⟨fun name composite named => ⟨fun value => ⟨?_, fun more enough => ?_⟩,
    fun arguments => ?_, fun more deeper cast type arguments assigned => ?_⟩,
    fun name entry registered value => ⟨?_, fun more enough => ?_⟩⟩
  · exact (Registry.decode_fails wellFormed closed reached named value).givesOrFaults
  · exact Registry.convertWithin_eq wellFormed closed reached named enough
  · exact (Registry.construct_fails wellFormed closed reached named arguments).givesOrFaults
  · rw [wellFormed.compositeNamed, Registry.composite, Registry.found_ok] at named
    obtain ⟨found, leaves⟩ := reached name composite named
    exact runInitializer_deeper cast deeper leaves type arguments assigned
  · have known := (closed.entries name entry (Registry.found_ok.mp registered)).2
    exact (Registry.cast_fails wellFormed closed reached known value).givesOrFaults
  · have known := (closed.entries name entry (Registry.found_ok.mp registered)).2
    exact Registry.castWithin_eq wellFormed closed reached known enough

/-- Folders have entries, which are folders again or files of some form. -/
def folders : Document where
  definitions := [
    ("Named", ⟨[
      ("type", .string "object"),
      ("properties", .object [
        ("Kind", .object [("type", .string "string")]),
        ("Form", .object [("type", .string "string")])])]⟩),
    ("Folder", ⟨[("allOf", .array [
      .object [("$ref", .string "#/$defs/Named")],
      .object [
        ("type", .string "object"),
        ("properties", .object [
          ("Entries", .object [
            ("type", .string "array"),
            ("items", .object [("$ref", .string "#/$defs/Entry")])])])]])]⟩),
    ("Text", ⟨[("allOf", .array [.object [("$ref", .string "#/$defs/Named")]])]⟩),
    ("File", ⟨[
      ("oneOf", .array [.object [("$ref", .string "#/$defs/Text")]]),
      ("discriminator", .object [
        ("propertyName", .string "Form"),
        ("mapping", .object [("Text", .string "#/$defs/Text")])])]⟩),
    ("Entry", ⟨[
      ("oneOf", .array [
        .object [("$ref", .string "#/$defs/Folder")], .object [("$ref", .string "#/$defs/File")]]),
      ("discriminator", .object [
        ("propertyName", .string "Kind"),
        ("mapping", .object [
          ("Folder", .string "#/$defs/Folder"), ("File", .string "#/$defs/File")])])]⟩)]

theorem compile_decoding_ends_folders :
    ∃ registry, folders.compile = .ok registry ∧
      (∀ name composite, registry.compositeNamed name = .ok composite →
        (∀ value, GivesOrFaults (registry.decode name value) ∧
          ∀ more, layers registry (.composite name) value ≤ more →
            registry.convertWithin more composite value = registry.decode name value) ∧
        (∀ arguments, GivesOrFaults (registry.construct name arguments)) ∧
        ∀ more, generations registry ≤ more → ∀ cast type arguments assigned,
          runInitializer registry cast more type composite.initializer arguments assigned =
            runInitializer registry cast (generations registry) type composite.initializer
              arguments assigned) ∧
      ∀ name entry, registry.entry name = .ok entry → ∀ value,
        GivesOrFaults (registry.cast entry.caster value) ∧
          ∀ more, layers registry entry.caster value ≤ more →
            registry.castWithin more entry.caster value = registry.cast entry.caster value := by
  have compiles : folders.compile.toBool = true := by decide +kernel
  obtain ⟨registry, compiled⟩ := Outcomes.toBool_iff.mp compiles
  exact ⟨registry, compiled, compile_decoding_ends compiled⟩

end Document

end TypedSchema
