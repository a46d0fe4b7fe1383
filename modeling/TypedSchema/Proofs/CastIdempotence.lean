import TypedSchema.Proofs.Decode.Recognizing
import TypedSchema.Proofs.DispatchStability

/-!
Casting twice. What a cast gave is given again by the same cast, whatever was decoded in between, if
the caster recognizes it; otherwise the second cast always fails. Only polymorphs may fail to
recognize what they gave.
-/

namespace TypedSchema

namespace Registry

variable {registry : Registry}

theorem layers_suffice (registry : Registry) (caster : Caster) (value : Value) :
    caster.height ≤ Decode.layers registry caster value := by
  unfold Decode.layers
  omega

/-- A polymorph all of whose branches lead to composite types of their own names settles. -/
theorem settles_of_named {dispatcher : Dispatcher Caster}
    (named : ∀ branch ∈ dispatcher.branches, branch.caster = .composite branch.target) :
    registry.settles (.polymorph dispatcher) = true := by
  rw [settles, List.all_eq_true]
  intro choice listed
  obtain ⟨branch, member, inner⟩ := Caster.mem_choices_polymorph.mp listed
  rw [named branch member] at inner
  rw [List.mem_singleton.mp inner, takesBack, List.any_eq_true]
  exact ⟨branch.target, List.mem_map_of_mem member, registry.isSubtype_refl _⟩

end Registry

namespace Document

/-- Casts are idempotent up to recognition. If the caster recognizes what a cast gave, casting that
gives it again and leaves no trace; if not, casting it is an error. A caster recognizes all that it
gives if its polymorphs take back what their branches lead to. -/
theorem cast_again {document : Document} {registry : Registry}
    (compiled : document.compile = .ok registry)
    {caster : Caster} {value result : Value} {before after : NameTable}
    (ran : (registry.cast caster value).run before = (.ok result, after)) :
    (registry.recognizes caster result = true → ∀ names,
        (registry.cast caster result).run names = (.ok result, names)) ∧
      (registry.recognizes caster result = false → ∀ names,
        ∃ error, ((registry.cast caster result).run names).1 = .error error) ∧
      (registry.settles caster = true → registry.recognizes caster result = true) := by
  have wellFormed := compile_wellFormed compiled
  have first := Decode.run_adapt_ok.mp ran
  refine ⟨fun recognized names => ?_, fun unrecognized names => ?_, fun settled => ?_⟩
  · have enough := registry.layers_suffice caster result
    exact Decode.run_adapt_ok.mpr
      (Decode.castWith_recognized wellFormed first recognized enough names)
  · cases again : ((registry.cast caster result).run names).1 with
    | error error => exact ⟨error, rfl⟩
    | ok other =>
      obtain ⟨stop, again⟩ := Decode.run_fst_ok.mp again
      have recognized :=
        Decode.castWith_recognizes wellFormed first (Decode.run_adapt_ok.mp again)
      rw [unrecognized] at recognized
      cases recognized
  · exact Decode.castWith_settled wellFormed first settled

/-- What a registered name of a document makes of a value. -/
structure Instance where
  registry : Registry
  entry : Entry
  result : Value
  after : NameTable

/-- Casts a value by a registered name. -/
def instance? (document : Document) (name : String) (value : Value) :
    Except Error Instance := do
  let registry ← document.compile
  let entry ← registry.entry name
  let outcome := (registry.cast entry.caster value).run registry.names
  return { registry, entry, result := ← outcome.1, after := outcome.2 }

theorem instance?_ok {document : Document} {name : String} {value : Value} {made : Instance}
    (ran : instance? document name value = .ok made) :
    document.compile = .ok made.registry ∧ made.registry.entry name = .ok made.entry ∧
      (made.registry.cast made.entry.caster value).run made.registry.names =
        (.ok made.result, made.after) := by
  obtain ⟨registry, compiled, ran⟩ := Outcomes.bind_ok.mp ran
  obtain ⟨entry, registered, ran⟩ := Outcomes.bind_ok.mp ran
  obtain ⟨result, given, ran⟩ := Outcomes.bind_ok.mp ran
  cases ran
  exact ⟨compiled, registered, Prod.ext given rfl⟩

theorem cast_again_pets :
    ∃ made : Instance, pets.compile = .ok made.registry ∧
      made.registry.entry "Pet" = .ok made.entry ∧
      (made.registry.cast made.entry.caster (.ofJson (.object cat))).run made.registry.names =
        (.ok made.result, made.after) ∧
      made.registry.settles made.entry.caster = true ∧
      ∀ names, (made.registry.cast made.entry.caster made.result).run names =
        (.ok made.result, names) := by
  have given : ∃ made ∈ (instance? pets "Pet" (.ofJson (.object cat))).toOption,
      made.registry.settles made.entry.caster = true := by
    decide +kernel
  obtain ⟨made, given, settled⟩ := given
  obtain ⟨compiled, registered, ran⟩ := instance?_ok (Outcomes.toOption_iff.mp given)
  obtain ⟨again, -, recognized⟩ := cast_again compiled ran
  exact ⟨made, compiled, registered, ran, settled, again (recognized settled)⟩

/-- Guests that are pets, which are cats. -/
def guests : Document where
  definitions := [
    ("Cat", ⟨[
      ("type", .string "object"),
      ("properties", .object [("Kind", .object [("type", .string "string")])])]⟩),
    ("Pet", ⟨[
      ("oneOf", .array [.object [("$ref", .string "#/$defs/Cat")]]),
      ("discriminator", .object [
        ("propertyName", .string "Kind"),
        ("mapping", .object [("cat", .string "#/$defs/Cat")])])]⟩),
    ("Guest", ⟨[
      ("oneOf", .array [.object [("$ref", .string "#/$defs/Pet")]]),
      ("discriminator", .object [
        ("propertyName", .string "Kind"),
        ("mapping", .object [("cat", .string "#/$defs/Pet")])])]⟩)]

/-- The cat that a guest turns out to be is no guest. -/
theorem cast_forgets_guest :
    ∃ made : Instance, guests.compile = .ok made.registry ∧
      made.registry.entry "Guest" = .ok made.entry ∧
      (made.registry.cast made.entry.caster (.ofJson (.object [("Kind", .string "cat")]))).run
          made.registry.names = (.ok made.result, made.after) ∧
      ∃ error, ((made.registry.cast made.entry.caster made.result).run made.after).1 =
        .error error := by
  have lost : ∃ made ∈
      (instance? guests "Guest" (.ofJson (.object [("Kind", .string "cat")]))).toOption,
      ((made.registry.cast made.entry.caster made.result).run made.after).1.toBool = false := by
    decide +kernel
  obtain ⟨made, given, lost⟩ := lost
  obtain ⟨compiled, registered, ran⟩ := instance?_ok (Outcomes.toOption_iff.mp given)
  refine ⟨made, compiled, registered, ran, ?_⟩
  cases again : ((made.registry.cast made.entry.caster made.result).run made.after).1 with
  | error error => exact ⟨error, rfl⟩
  | ok other =>
    rw [again] at lost
    cases lost

end Document

end TypedSchema
