import TypedSchema.Proofs.DocumentLoading
import TypedSchema.Proofs.PassthroughTargets

/-!
References by pointers. Whatever characters the name of a definition has, escaping them makes one
segment of a pointer of it, and a pointer that ends in that segment refers to the definition, in any
place where a reference may stand.
-/

namespace TypedSchema

/-- A name in which every `~` is written `~0` and every `/` is written `~1`. -/
def escape (name : String) : String :=
  String.ofList (segment name)

theorem referenceName_pointer_escape (place name : String) :
    referenceName (place ++ "/" ++ escape name) = name := by
  have chars : place ++ "/" ++ escape name =
      String.ofList (place.toList ++ '/' :: segment name) := by
    simp [← String.toList_inj, escape]
  rw [chars, referenceName_pointer]

namespace Definition

variable {definition : Definition} {reference : String}

theorem has_reference (refers : definition.reference? = some reference) :
    definition.has "$ref" = true := by
  obtain ⟨value, found, -⟩ := Option.bind_eq_some_iff.mp refers
  exact Fields.has_iff.mpr (Fields.mem_names_iff.mpr ⟨value, found⟩)

theorem shape_of_reference (refers : definition.reference? = some reference) :
    definition.shape = .ok .passthrough := by
  simp only [shape, category, has_reference refers, if_true]

theorem constrained_of_reference (refers : definition.reference? = some reference) :
    definition.isUnconstrained = false := by
  simp [isUnconstrained, shapeKeywords, has_reference refers]

end Definition

namespace Compile

/-- Next to a reference nothing else of a schema counts. -/
theorem resolveShape_reference {definition : Definition} {reference : String}
    (refers : definition.reference? = some reference) (patterns : Patterns) (solve : Solver)
    (hint : String) :
    resolveShape patterns solve definition hint = solve (.named (referenceName reference)) := by
  simp only [resolveShape, resolveReference, Definition.referenceName?, refers, Option.map_some,
    Definition.shape_of_reference refers, Definition.constrained_of_reference refers,
    Bool.false_eq_true, if_false]
  rfl

end Compile

open Compile

/-- A name can be regained from any pointer to it. Hence a schema with the pointer is resolved as
the definition of the name is, and a definition with the pointer stands for the listed definition that
has the name. -/
theorem referenceName_escape :
    (∀ place name : String, referenceName (place ++ "/" ++ escape name) = name) ∧
    (∀ (definition : Definition) (place name : String),
      definition.reference? = some (place ++ "/" ++ escape name) →
      ∀ patterns solve hint,
        resolveShape patterns solve definition hint = solve (.named name)) ∧
    ∀ (document : Document) (registry : Registry), document.compile = .ok registry →
      ∀ name body, (name, body) ∈ document.definitions →
      ∀ synonym definition place, (synonym, definition) ∈ document.definitions →
        definition.reference? = some (place ++ "/" ++ escape name) →
        registry.StandsFor synonym name ∧
          ∃ entry, registry.entry name = .ok entry ∧ entry.definition = body := by
  refine ⟨referenceName_pointer_escape, ?_, ?_⟩
  · intro definition place name refers patterns solve hint
    rw [resolveShape_reference refers, referenceName_pointer_escape]
  · intro document registry compiled name body listed synonym definition place own refers
    obtain ⟨workspace, made⟩ := compile_ok compiled
    obtain ⟨entry, present, -, rfl, shape⟩ := compile_listed compiled own
    obtain ⟨other, theirs, -, same, -⟩ := compile_listed compiled listed
    rw [Definition.shape_of_reference refers] at shape
    have referred : entry.definition.referenceName? = some name := by
      rw [Definition.referenceName?, refers, Option.map_some, referenceName_pointer_escape]
    exact ⟨made.standsFor present (Except.ok.inj shape).symm referred, other,
      Registry.found_ok.mpr theirs, same⟩

/-- An object type and a reference to it, whose name looks like an escaped one. -/
def slashed : Document where
  definitions := [
    ("Alias", ⟨[("$ref", .string "#/$defs/~01~1~001")]⟩),
    ("~1/~01", ⟨[("type", .string "object")]⟩)]

theorem referenceName_escape_slashed :
    "#/$defs" ++ "/" ++ escape "~1/~01" = "#/$defs/~01~1~001" ∧
      referenceName "#/$defs/~01~1~001" = "~1/~01" ∧
      ∃ registry, slashed.compile = .ok registry ∧ registry.StandsFor "Alias" "~1/~01" := by
  have escaped : "#/$defs" ++ "/" ++ escape "~1/~01" = "#/$defs/~01~1~001" := by decide +kernel
  have compiles : slashed.compile.toOption.isSome := by decide +kernel
  obtain ⟨registry, made⟩ := Option.isSome_iff_exists.mp compiles
  have compiled := Outcomes.toOption_iff.mp made
  obtain ⟨regained, -, stands⟩ := referenceName_escape
  have same := regained "#/$defs" "~1/~01"
  rw [escaped] at same
  have refers : (⟨[("$ref", .string "#/$defs/~01~1~001")]⟩ : Definition).reference? =
      some ("#/$defs" ++ "/" ++ escape "~1/~01") := by
    rw [escaped]
    rfl
  exact ⟨escaped, same, registry, compiled,
    (stands slashed registry compiled _ _ (.tail _ (.head _)) _ _ _ (.head _) refers).1⟩

end TypedSchema
