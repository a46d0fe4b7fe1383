import TypedSchema.Proofs.Compile.Completing
import TypedSchema.Proofs.Compile.Counting
import TypedSchema.Proofs.Compile.Rounds

/-!
Compiling ends, and its output is bounded. Whatever a document refers to, it compiles or is refused
for what it says, before any of the bounds on layers, rounds and generations is reached; and a
registry holds no more names than there are objects in the definitions.
-/

namespace TypedSchema

namespace Compile

variable {document : Document} {error : Error}

theorem Rejection.not_exhausted (rejection : Rejection error) : error ≠ .exhausted := by
  rintro rfl
  cases rejection with
  | schema about => cases about

theorem compile_rejection (refused : document.compile = .error error) : Rejection error := by
  rcases Outcomes.bind_error.mp refused with unclassified | ⟨known, classified, refused⟩
  · exact .schema (classify_error unclassified)
  obtain ⟨start, names⟩ := classify_ok classified
  rcases Outcomes.bind_error.mp refused with failed | ⟨⟨_, workspace⟩, filled, refused⟩
  · exact fill_rejection start rfl (fun name member => names ▸ member) failed
  rcases Outcomes.bind_error.mp refused with failed | ⟨registry, -, ⟨⟩⟩
  exact completeAll_rejection (fill_ok start rfl filled).sound.starting failed

theorem Compiled.entries_le {workspace : Workspace} {registry : Registry}
    (compiled : Compiled document workspace registry) :
    registry.entries.length ≤ document.objects := by
  rw [compiled.completed.entries]
  exact compiled.sound.entries_le

end Compile

namespace Document

open Compile

/-- Compiling ends for every document, with a registry that has no more entries than the definitions
hold objects, or with an error about a schema without a type or a reference that leads nowhere or
back to itself. No run is cut off. -/
theorem compile_ends {document : Document} :
    ((∃ registry, document.compile = .ok registry ∧
        registry.entries.length ≤ document.objects) ∨
      ∃ error, document.compile = .error error ∧ Rejection error) ∧
    document.compile ≠ .error .exhausted := by
  constructor
  · cases compiled : document.compile with
    | ok registry =>
      obtain ⟨workspace, made⟩ := compile_ok compiled
      exact .inl ⟨registry, rfl, made.entries_le⟩
    | error error => exact .inr ⟨error, rfl, compile_rejection compiled⟩
  · exact fun cut => (compile_rejection cut).not_exhausted rfl

/-- Teams and persons refer to each other, persons also to themselves, and one definition takes the
name that is made for the address of persons. -/
def teams : Document where
  definitions := [
    ("Person", ⟨[("type", .string "object"), ("properties", .object [
      ("Mentor", .object [("$ref", .string "#/$defs/Person")]),
      ("Team", .object [("$ref", .string "#/$defs/Team")]),
      ("Address", .object [("properties", .object [
        ("Lines", .object [("type", .string "array"),
          ("items", .object [("enum", .array [.string "Street", .string "City"])])])])])])]⟩),
    ("Team", ⟨[("type", .string "object"), ("properties", .object [
      ("Members", .object [("type", .string "array"),
        ("items", .object [("$ref", .string "#/$defs/Person")])])])]⟩),
    ("Person_address", ⟨[("type", .string "string")]⟩)]

theorem compile_ends_teams : teams.objects = 13 ∧
    ∃ registry, teams.compile = .ok registry ∧ registry.entries.length ≤ 13 := by
  have count : teams.objects = 13 := by decide +kernel
  obtain ⟨(⟨registry, compiled, bounded⟩ | ⟨error, refused, -⟩), -⟩ := compile_ends
  · exact ⟨count, registry, compiled, count ▸ bounded⟩
  · have compiles : teams.compile.toBool = true := by decide +kernel
    rw [refused] at compiles
    cases compiles

end Document

end TypedSchema
