import Mathlib.Tactic.Tauto
import TypedSchema.Naming.Conversion

/-!
Which names conversion leaves alone. A name is escaped by its own characters alone, and a set of
special names that conversion has filled holds escaped names only; with such a set a name converts
as it does with no special names at all.
-/

namespace TypedSchema

namespace SpecialNames

@[simp] theorem mem_insert {name added : String} {special : SpecialNames} :
    name ∈ special.insert added ↔ name = added ∨ name ∈ special := by
  induction special with
  | nil => simp [insert]
  | cons first rest ih =>
    rw [insert]
    split
    · rename_i same
      subst same
      simp
    · split
      · simp
      · simp only [List.mem_cons, ih]
        tauto

theorem mem_union {name : String} {special additions : SpecialNames} :
    name ∈ special.union additions ↔ name ∈ special ∨ name ∈ additions := by
  unfold union
  induction additions generalizing special with
  | nil => simp
  | cons first rest ih =>
    simp only [List.foldl_cons, ih, mem_insert, List.mem_cons]
    tauto

@[simp] theorem contains_iff {name : String} {special : SpecialNames} :
    special.contains name = true ↔ name ∈ special := by
  simp [contains]

end SpecialNames

namespace Naming

/-- Identifiers that conversion leaves alone: those that hold an underscore, and those that their
words do not give back. -/
def Escaped (name : String) : Prop :=
  isIdentifier name = true ∧ ('_' ∈ name.toList ∨ join (words name.toList) ≠ name.toList)

instance (name : String) : Decidable (Escaped name) :=
  inferInstanceAs (Decidable (_ ∧ _))

/-- The attribute of a key where no name is special yet. -/
def snake (name : String) : String :=
  (pascalToSnake name []).1

/-- Special names that only conversion has put there. -/
def Sound (special : SpecialNames) : Prop :=
  ∀ name ∈ special, Escaped name

theorem Sound.nil : Sound [] := by
  intro name member
  cases member

theorem Sound.union {special additions : SpecialNames} (sound : Sound special)
    (more : Sound additions) : Sound (special.union additions) := by
  intro name member
  rcases SpecialNames.mem_union.mp member with held | added
  · exact sound name held
  · exact more name added

theorem split_of_escaped {name : String} (escaped : Escaped name) (special : SpecialNames) :
    split true name special =
      (none, if name ∈ special then special else special.insert name) := by
  obtain ⟨identifier, reason⟩ := escaped
  by_cases held : name ∈ special
  · simp [split, held]
  · by_cases underscore : '_' ∈ name.toList
    · simp [split, identifier, held, underscore]
    · have broken := reason.resolve_left underscore
      simp [split, identifier, held, underscore, broken]

theorem split_of_not_escaped {name : String} (plain : ¬Escaped name) {special : SpecialNames}
    (absent : name ∉ special) :
    split true name special =
      (if isIdentifier name then some (words name.toList) else none, special) := by
  by_cases identifier : isIdentifier name = true
  · have whole : '_' ∉ name.toList ∧ join (words name.toList) = name.toList := by
      simpa [Escaped, identifier] using plain
    simp [split, identifier, absent, whole]
  · simp [split, identifier]

/-- Conversion does not depend on the special names. -/
theorem pascalToSnake_fst {special : SpecialNames} (sound : Sound special) (name : String) :
    (pascalToSnake name special).1 = snake name := by
  unfold snake pascalToSnake
  by_cases escaped : Escaped name
  · rw [split_of_escaped escaped, split_of_escaped escaped]
  · have absent : name ∉ special := fun held => escaped (sound name held)
    rw [split_of_not_escaped escaped absent, split_of_not_escaped escaped List.not_mem_nil]
    by_cases identifier : isIdentifier name = true <;> simp [identifier]

theorem pascalToSnake_snd (name : String) (special : SpecialNames) :
    (pascalToSnake name special).2 =
      if Escaped name ∧ name ∉ special then special.insert name else special := by
  unfold pascalToSnake
  by_cases escaped : Escaped name
  · rw [split_of_escaped escaped]
    by_cases held : name ∈ special <;> simp [escaped, held]
  · by_cases held : name ∈ special
    · simp [split, held]
    · rw [split_of_not_escaped escaped held]
      by_cases identifier : isIdentifier name = true <;> simp [escaped, identifier]

theorem mem_pascalToSnake_snd {special : SpecialNames} {name other : String} :
    other ∈ (pascalToSnake name special).2 ↔ other ∈ special ∨ (other = name ∧ Escaped name) := by
  rw [pascalToSnake_snd]
  split
  · rename_i fresh
    simp only [SpecialNames.mem_insert, fresh.1, and_true]
    tauto
  · rename_i settled
    constructor
    · exact Or.inl
    · rintro (held | ⟨rfl, escaped⟩)
      · exact held
      · exact not_not.mp fun absent => settled ⟨escaped, absent⟩

theorem Sound.pascalToSnake {special : SpecialNames} (sound : Sound special) (name : String) :
    Sound (pascalToSnake name special).2 := by
  intro other member
  rcases mem_pascalToSnake_snd.mp member with held | ⟨rfl, escaped⟩
  · exact sound other held
  · exact escaped

theorem snake_of_escaped {name : String} (escaped : Escaped name) : snake name = name := by
  simp [snake, Naming.pascalToSnake, split_of_escaped escaped]

theorem snake_of_not_identifier {name : String} (other : isIdentifier name ≠ true) :
    snake name = name := by
  simp [snake, Naming.pascalToSnake, split, other]

theorem snakeToPascal_of_mem {name : String} {special : SpecialNames} (held : name ∈ special) :
    snakeToPascal name special = name := by
  simp [snakeToPascal, held]

theorem snakeToPascal_of_not_identifier {name : String} (other : isIdentifier name ≠ true)
    (special : SpecialNames) : snakeToPascal name special = name := by
  simp [snakeToPascal, other]

theorem snakeToPascal_of_not_mem {name : String} {special : SpecialNames} (absent : name ∉ special)
    (identifier : isIdentifier name = true) :
    snakeToPascal name special = String.ofList (join name.toList) := by
  simp [snakeToPascal, absent, identifier]

end Naming

end TypedSchema
