import TypedSchema.Proofs.Decode.Run

/-!
Keys and attributes. The attribute of a key depends on the type and the key alone; reading the keys
of an object adds those to the special names that are not declared and that conversion leaves alone.
-/

namespace TypedSchema

namespace Composite

/-- The property that a key is declared for. -/
def declaring? (composite : Composite) (key : String) : Option Property :=
  (Fields.values composite.properties).find? (·.external = key)

/-- The attribute of a key, whatever the special names are. -/
def attributeOf (composite : Composite) (key : String) : String :=
  match composite.declaring? key with
  | some property => property.name
  | none => Naming.snake key

/-- The entries of a map under the attributes of their keys. -/
def internalEntries (composite : Composite) (entries : Fields Value) : Fields Value :=
  entries.map fun (key, value) => (composite.attributeOf key, value)

theorem mem_internalEntries {composite : Composite} {entries : Fields Value}
    {entry : String × Value} (member : entry ∈ composite.internalEntries entries) :
    ∃ key, (key, entry.2) ∈ entries ∧ composite.attributeOf key = entry.1 := by
  obtain ⟨⟨key, value⟩, listed, rfl⟩ := List.mem_map.mp member
  exact ⟨key, listed, rfl⟩

theorem declaring?_external {composite : Composite} {key : String} {property : Property}
    (found : composite.declaring? key = some property) : property.external = key := by
  have holds := List.find?_some found
  simpa using holds

theorem declaring?_mem {composite : Composite} {key : String} {property : Property}
    (found : composite.declaring? key = some property) :
    property ∈ Fields.values composite.properties :=
  List.mem_of_find?_eq_some found

theorem declaring?_eq_none_iff {composite : Composite} {key : String} :
    composite.declaring? key = none ↔
      ∀ property ∈ Fields.values composite.properties, property.external ≠ key := by
  simp [declaring?]

theorem internalName_of_declared {composite : Composite} {key : String} {property : Property}
    (found : composite.declaring? key = some property) (special : SpecialNames) :
    composite.internalName key special = (property.name, special) := by
  unfold declaring? at found
  simp only [internalName, found]

theorem internalName_of_undeclared {composite : Composite} {key : String}
    (absent : composite.declaring? key = none) (special : SpecialNames) :
    composite.internalName key special = Naming.pascalToSnake key special := by
  unfold declaring? at absent
  simp only [internalName, absent]

theorem attributeOf_of_declared {composite : Composite} {key : String} {property : Property}
    (found : composite.declaring? key = some property) :
    composite.attributeOf key = property.name := by
  simp only [attributeOf, found]

theorem attributeOf_of_undeclared {composite : Composite} {key : String}
    (absent : composite.declaring? key = none) :
    composite.attributeOf key = Naming.snake key := by
  simp only [attributeOf, absent]

theorem internalName_fst {special : SpecialNames} (sound : Naming.Sound special)
    (composite : Composite) (key : String) :
    (composite.internalName key special).1 = composite.attributeOf key := by
  cases found : composite.declaring? key with
  | some property => rw [internalName_of_declared found, attributeOf_of_declared found]
  | none =>
    rw [internalName_of_undeclared found, attributeOf_of_undeclared found,
      Naming.pascalToSnake_fst sound]

/-- The key that comes back for the attribute of a key. -/
def returned (composite : Composite) (special : SpecialNames) (key : String) : String :=
  composite.externalName (composite.internalName key special).1 special

/-- Keys that become special when they are read: undeclared, and left alone by conversion. -/
def Escapes (composite : Composite) (key : String) : Prop :=
  composite.declaring? key = none ∧ Naming.Escaped key

theorem mem_internalName_snd {composite : Composite} {key other : String}
    {special : SpecialNames} :
    other ∈ (composite.internalName key special).2 ↔
      other ∈ special ∨ (other = key ∧ composite.Escapes key) := by
  cases found : composite.declaring? key with
  | some property => simp [internalName_of_declared found, Escapes, found]
  | none =>
    rw [internalName_of_undeclared found, Naming.mem_pascalToSnake_snd]
    simp [Escapes, found]

theorem internalName_snd_of_settled {composite : Composite} {key : String}
    {special : SpecialNames} (settled : composite.Escapes key → key ∈ special) :
    (composite.internalName key special).2 = special := by
  cases found : composite.declaring? key with
  | some property => rw [internalName_of_declared found]
  | none =>
    rw [internalName_of_undeclared found, Naming.pascalToSnake_snd, if_neg]
    rintro ⟨escaped, absent⟩
    exact absent (settled ⟨found, escaped⟩)

end Composite

namespace Decode

open NameTable (Grows)

/-! ## Reading one key -/

theorem internalName_apply (composite : Composite) (key : String) (names : NameTable) :
    internalName composite key names =
      ((composite.internalName key (names.of composite.name)).1,
        Fields.insert names composite.name
          (composite.internalName key (names.of composite.name)).2) := rfl

theorem mem_internalName {composite : Composite} {key type other : String} {names : NameTable} :
    other ∈ (internalName composite key names).2.of type ↔
      other ∈ names.of type ∨
        (type = composite.name ∧ other = key ∧ composite.Escapes key) := by
  rw [internalName_apply, NameTable.of_insert]
  by_cases same : type = composite.name
  · subst same
    simp [Composite.mem_internalName_snd]
  · simp [same]

theorem internalName_grows (composite : Composite) (key : String) (names : NameTable) :
    Grows names (internalName composite key names).2 where
  kept := fun type name member => mem_internalName.mpr (.inl member)
  fresh := fun type name member => by
    rcases mem_internalName.mp member with held | ⟨-, rfl, escapes⟩
    · exact .inl held
    · exact .inr escapes.2
  covered := fun type member => by
    rw [internalName_apply]
    exact Fields.mem_names_insert.mpr (.inr member)

/-! ## Reading all keys -/

theorem keywords_cons (composite : Composite) (key : String) (value : Value)
    (rest : List (String × Value)) (names : NameTable) :
    keywords composite ((key, value) :: rest) names =
      (((internalName composite key names).1, value) ::
          (keywords composite rest (internalName composite key names).2).1,
        (keywords composite rest (internalName composite key names).2).2) := rfl

theorem keywords_grows (composite : Composite) (entries : List (String × Value))
    (names : NameTable) : Grows names (keywords composite entries names).2 := by
  induction entries generalizing names with
  | nil => exact Grows.refl names
  | cons entry rest ih =>
    rw [keywords_cons]
    exact (internalName_grows composite entry.1 names).trans (ih _)

/-- The keywords are the entries under the attributes of their keys. -/
theorem keywords_fst (composite : Composite) (entries : List (String × Value))
    {names : NameTable} (sound : names.Sound) :
    (keywords composite entries names).1 = composite.internalEntries entries := by
  induction entries generalizing names with
  | nil => rfl
  | cons entry rest ih =>
    have first : (internalName composite entry.1 names).1 = composite.attributeOf entry.1 := by
      rw [internalName_apply]
      exact Composite.internalName_fst (sound composite.name) composite entry.1
    rw [keywords_cons, first, ih (sound.grow (internalName_grows composite entry.1 names))]
    rfl

/-- Afterwards the keys that conversion leaves alone are special for the type as well. -/
theorem mem_keywords {composite : Composite} {entries : List (String × Value)}
    {names : NameTable} {type other : String} :
    other ∈ (keywords composite entries names).2.of type ↔
      other ∈ names.of type ∨
        (type = composite.name ∧ other ∈ Fields.names entries ∧ composite.Escapes other) := by
  induction entries generalizing names with
  | nil => exact ⟨.inl, fun either => either.resolve_right fun absent => nomatch absent.2.1⟩
  | cons entry rest ih =>
    rw [keywords_cons, ih, mem_internalName]
    simp only [Fields.names, List.map_cons, List.mem_cons]
    constructor
    · rintro ((held | ⟨rfl, rfl, escapes⟩) | ⟨rfl, later, escapes⟩)
      · exact .inl held
      · exact .inr ⟨rfl, .inl rfl, escapes⟩
      · exact .inr ⟨rfl, .inr later, escapes⟩
    · rintro (held | ⟨rfl, rfl | later, escapes⟩)
      · exact .inl (.inl held)
      · exact .inl (.inr ⟨rfl, rfl, escapes⟩)
      · exact .inr ⟨rfl, later, escapes⟩

/-- Where all those keys are special already, reading changes nothing. -/
theorem keywords_snd_of_settled {composite : Composite} {entries : List (String × Value)}
    {names : NameTable} (covered : composite.name ∈ Fields.names names)
    (settled : ∀ key ∈ Fields.names entries, composite.Escapes key →
      key ∈ names.of composite.name) :
    (keywords composite entries names).2 = names := by
  induction entries with
  | nil => rfl
  | cons entry rest ih =>
    have unchanged : (internalName composite entry.1 names).2 = names := by
      obtain ⟨special, found⟩ := Fields.mem_names_iff.mp covered
      have held : names.of composite.name = special := by simp [NameTable.of, found]
      rw [internalName_apply,
        Composite.internalName_snd_of_settled (settled entry.1 (by simp [Fields.names])), held]
      exact Fields.insert_of_get? found
    rw [keywords_cons, unchanged]
    exact ih fun key later => settled key (List.mem_cons_of_mem _ later)

end Decode

end TypedSchema
