import TypedSchema.Encode
import TypedSchema.Proofs.Fields
import TypedSchema.Proofs.Outcomes
import TypedSchema.Proofs.Values.Plain

/-!
Values whose plain form is settled: it is the same with any special names among some that may come
up. Data that was lifted from a document has no attributes to be written, so it always is.
-/

namespace TypedSchema

namespace Value

/-! ## Values without objects -/

/-- No object occurs in the value. -/
def Objectless (value : Value) : Prop :=
  ∀ type attributes, ¬Occurs (.object type attributes) value

theorem Plain.objectless {value : Value} (plain : Plain value) : value.Objectless :=
  plain.no_object

theorem objectless_list {items : List Value} (each : ∀ item ∈ items, item.Objectless) :
    (Value.list items).Objectless := by
  intro type attributes occurs
  cases occurs with
  | item member inner => exact each _ member type attributes inner

theorem objectless_map {entries : List (String × Value)}
    (each : ∀ entry ∈ entries, entry.2.Objectless) : (Value.map entries).Objectless := by
  intro type attributes occurs
  cases occurs with
  | entry member inner => exact each _ member type attributes inner

mutual
/-- Objects are written as maps. -/
theorem toPlain_objectless (keyOf : KeyOf) : (value : Value) → (toPlain keyOf value).Objectless
  | .object type attributes => by
    refine objectless_map fun entry held => ?_
    have listed := (Fields.mem_insertAll held).resolve_right List.not_mem_nil
    exact plainAttributes_objectless keyOf type attributes entry listed
  | .member held => by
    rw [toPlain, Member.toPlain]
    split
    · exact (ofJson_plain _).objectless
    · refine objectless_map fun entry member => ?_
      simp only [Member.toEntries, List.mem_cons, List.not_mem_nil, or_false] at member
      rcases member with rfl | rfl
      · exact Plain.objectless (.string _)
      · cases held.description with
        | none => exact Plain.objectless .null
        | some text => exact Plain.objectless (.string text)
  | .list items => objectless_list (plainItems_objectless keyOf items)
  | .map entries => objectless_map (plainEntries_objectless keyOf entries)
  | .null => nofun
  | .bool _ => nofun
  | .integer _ => nofun
  | .number _ => nofun
  | .string _ => nofun
  | .timestamp _ => nofun
  | .uuid _ => nofun

theorem plainItems_objectless (keyOf : KeyOf) :
    (items : List Value) → ∀ item ∈ plainItems keyOf items, item.Objectless
  | [], _, held => by cases held
  | first :: rest, item, held => by
    cases List.mem_cons.mp held with
    | inl same => exact same ▸ toPlain_objectless keyOf first
    | inr later => exact plainItems_objectless keyOf rest item later

theorem plainEntries_objectless (keyOf : KeyOf) :
    (entries : List (String × Value)) → ∀ entry ∈ plainEntries keyOf entries, entry.2.Objectless
  | [], _, held => by cases held
  | (name, value) :: rest, entry, held => by
    cases List.mem_cons.mp held with
    | inl same => exact same ▸ toPlain_objectless keyOf value
    | inr later => exact plainEntries_objectless keyOf rest entry later

theorem plainAttributes_objectless (keyOf : KeyOf) (type : String) :
    (attributes : List (String × Value)) →
      ∀ entry ∈ plainAttributes keyOf type attributes, entry.2.Objectless
  | [], _, held => by cases held
  | (name, value) :: rest, entry, held => by
    cases List.mem_cons.mp held with
    | inl same => exact same ▸ toPlain_objectless keyOf value
    | inr later => exact plainAttributes_objectless keyOf type rest entry later
end

/-! ## Writing with other keys -/

/-- The keys of all attributes inside the value are the same. -/
def SameKeys (keyOf other : KeyOf) (value : Value) : Prop :=
  ∀ type attributes, Occurs (.object type attributes) value →
    ∀ name ∈ Fields.names attributes, keyOf type name = other type name

theorem SameKeys.inner {keyOf other : KeyOf} {part value : Value}
    (same : SameKeys keyOf other value) (occurs : Occurs part value) : SameKeys keyOf other part :=
  fun type attributes inner => same type attributes (inner.trans occurs)

mutual
/-- The plain form depends on the keys of the attributes alone. -/
theorem toPlain_congr {keyOf other : KeyOf} :
    (value : Value) → SameKeys keyOf other value → toPlain keyOf value = toPlain other value
  | .object type attributes, same => by
    rw [toPlain, toPlain, plainAttributes_congr type attributes
      (fun entry member => same.inner (.field member .self))
      fun entry member => same type attributes .self entry.1 (Fields.name_mem member)]
  | .member _, _ => rfl
  | .list items, same => by
    rw [toPlain, toPlain, plainItems_congr items fun item member => same.inner (.item member .self)]
  | .map entries, same => by
    rw [toPlain, toPlain,
      plainEntries_congr entries fun entry member => same.inner (.entry member .self)]
  | .null, _ => rfl
  | .bool _, _ => rfl
  | .integer _, _ => rfl
  | .number _, _ => rfl
  | .string _, _ => rfl
  | .timestamp _, _ => rfl
  | .uuid _, _ => rfl

theorem plainItems_congr {keyOf other : KeyOf} :
    (items : List Value) → (∀ item ∈ items, SameKeys keyOf other item) →
      plainItems keyOf items = plainItems other items
  | [], _ => rfl
  | item :: rest, same => by
    rw [plainItems, plainItems, toPlain_congr item (same item List.mem_cons_self),
      plainItems_congr rest fun other member => same other (List.mem_cons_of_mem _ member)]

theorem plainEntries_congr {keyOf other : KeyOf} :
    (entries : List (String × Value)) → (∀ entry ∈ entries, SameKeys keyOf other entry.2) →
      plainEntries keyOf entries = plainEntries other entries
  | [], _ => rfl
  | (name, value) :: rest, same => by
    rw [plainEntries, plainEntries, toPlain_congr value (same _ List.mem_cons_self),
      plainEntries_congr rest fun other member => same other (List.mem_cons_of_mem _ member)]

theorem plainAttributes_congr {keyOf other : KeyOf} (type : String) :
    (attributes : List (String × Value)) → (∀ entry ∈ attributes, SameKeys keyOf other entry.2) →
      (∀ entry ∈ attributes, keyOf type entry.1 = other type entry.1) →
        plainAttributes keyOf type attributes = plainAttributes other type attributes
  | [], _, _ => rfl
  | (name, value) :: rest, same, keys => by
    rw [plainAttributes, plainAttributes, toPlain_congr value (same _ List.mem_cons_self),
      keys _ List.mem_cons_self, plainAttributes_congr type rest
        (fun other member => same other (List.mem_cons_of_mem _ member))
        fun other member => keys other (List.mem_cons_of_mem _ member)]
end

mutual
/-- So does the document that a value is written as, and the place where that fails. -/
theorem toJson_congr {keyOf other : KeyOf} :
    (value : Value) → SameKeys keyOf other value → value.toJson keyOf = value.toJson other
  | .object type attributes, same => by
    rw [toJson, toJson, attributesToJson_congr type type attributes
      (fun entry member => same.inner (.field member .self))
      fun entry member => same type attributes .self entry.1 (Fields.name_mem member)]
  | .member _, _ => rfl
  | .list items, same => by
    rw [toJson, toJson,
      itemsToJson_congr items 0 fun item member => same.inner (.item member .self)]
  | .map entries, same => by
    rw [toJson, toJson,
      entriesToJson_congr entries fun entry member => same.inner (.entry member .self)]
  | .null, _ => rfl
  | .bool _, _ => rfl
  | .integer _, _ => rfl
  | .number _, _ => rfl
  | .string _, _ => rfl
  | .timestamp _, _ => rfl
  | .uuid _, _ => rfl

theorem itemsToJson_congr {keyOf other : KeyOf} :
    (items : List Value) → (index : Nat) → (∀ item ∈ items, SameKeys keyOf other item) →
      itemsToJson keyOf index items = itemsToJson other index items
  | [], _, _ => rfl
  | item :: rest, index, same => by
    rw [itemsToJson, itemsToJson, toJson_congr item (same item List.mem_cons_self),
      itemsToJson_congr rest (index + 1) fun other member =>
        same other (List.mem_cons_of_mem _ member)]

theorem entriesToJson_congr {keyOf other : KeyOf} :
    (entries : List (String × Value)) → (∀ entry ∈ entries, SameKeys keyOf other entry.2) →
      entriesToJson keyOf entries = entriesToJson other entries
  | [], _ => rfl
  | (name, value) :: rest, same => by
    rw [entriesToJson, entriesToJson, toJson_congr value (same _ List.mem_cons_self),
      entriesToJson_congr rest fun other member => same other (List.mem_cons_of_mem _ member)]

theorem attributesToJson_congr {keyOf other : KeyOf} (type target : String) :
    (attributes : List (String × Value)) → (∀ entry ∈ attributes, SameKeys keyOf other entry.2) →
      (∀ entry ∈ attributes, keyOf type entry.1 = other target entry.1) →
        attributesToJson keyOf type attributes = attributesToJson other target attributes
  | [], _, _ => rfl
  | (name, value) :: rest, same, keys => by
    rw [attributesToJson, attributesToJson, toJson_congr value (same _ List.mem_cons_self),
      keys _ List.mem_cons_self, attributesToJson_congr type target rest
        (fun other member => same other (List.mem_cons_of_mem _ member))
        fun other member => keys other (List.mem_cons_of_mem _ member)]
end

mutual
/-- Whether a value can be written does not depend on the keys. -/
theorem toJson_keyless {keyOf : KeyOf} (other : KeyOf) :
    (value : Value) → {json : Json} → toJson keyOf value = .ok json →
      ∃ json, toJson other value = .ok json
  | .object type attributes, _, wrote => by
    rw [toJson] at wrote
    obtain ⟨members, inner, -⟩ := Outcomes.bind_ok.mp wrote
    obtain ⟨members, inner⟩ := attributesToJson_keyless other type attributes inner
    exact ⟨_, by rw [toJson, inner]; rfl⟩
  | .list items, _, wrote => by
    rw [toJson] at wrote
    obtain ⟨written, inner, -⟩ := Outcomes.bind_ok.mp wrote
    obtain ⟨written, inner⟩ := itemsToJson_keyless other items 0 inner
    exact ⟨_, by rw [toJson, inner]; rfl⟩
  | .map entries, _, wrote => by
    rw [toJson] at wrote
    obtain ⟨members, inner, -⟩ := Outcomes.bind_ok.mp wrote
    obtain ⟨members, inner⟩ := entriesToJson_keyless other entries inner
    exact ⟨_, by rw [toJson, inner]; rfl⟩
  | .member _, json, wrote => ⟨json, wrote⟩
  | .null, json, wrote => ⟨json, wrote⟩
  | .bool _, json, wrote => ⟨json, wrote⟩
  | .integer _, json, wrote => ⟨json, wrote⟩
  | .number _, json, wrote => ⟨json, wrote⟩
  | .string _, json, wrote => ⟨json, wrote⟩
  | .timestamp _, json, wrote => ⟨json, wrote⟩
  | .uuid _, json, wrote => ⟨json, wrote⟩

theorem itemsToJson_keyless {keyOf : KeyOf} (other : KeyOf) :
    (items : List Value) → (index : Nat) → {written : List Json} →
      itemsToJson keyOf index items = .ok written →
        ∃ written, itemsToJson other index items = .ok written
  | [], _, written, wrote => ⟨written, wrote⟩
  | item :: rest, index, _, wrote => by
    rw [itemsToJson] at wrote
    obtain ⟨json, first, wrote⟩ := Outcomes.bind_ok.mp wrote
    obtain ⟨later, others, -⟩ := Outcomes.bind_ok.mp wrote
    obtain ⟨json, first⟩ := toJson_keyless other item (Outcomes.mapError_ok.mp first)
    obtain ⟨later, others⟩ := itemsToJson_keyless other rest (index + 1) others
    exact ⟨_, by rw [itemsToJson, first, others]; rfl⟩

theorem entriesToJson_keyless {keyOf : KeyOf} (other : KeyOf) :
    (entries : List (String × Value)) → {written : List (String × Json)} →
      entriesToJson keyOf entries = .ok written →
        ∃ written, entriesToJson other entries = .ok written
  | [], written, wrote => ⟨written, wrote⟩
  | (name, value) :: rest, _, wrote => by
    rw [entriesToJson] at wrote
    obtain ⟨json, first, wrote⟩ := Outcomes.bind_ok.mp wrote
    obtain ⟨later, others, -⟩ := Outcomes.bind_ok.mp wrote
    obtain ⟨json, first⟩ := toJson_keyless other value (Outcomes.mapError_ok.mp first)
    obtain ⟨later, others⟩ := entriesToJson_keyless other rest others
    exact ⟨_, by rw [entriesToJson, first, others]; rfl⟩

theorem attributesToJson_keyless {keyOf : KeyOf} (other : KeyOf) (type : String) :
    (attributes : List (String × Value)) → {written : List (String × Json)} →
      attributesToJson keyOf type attributes = .ok written →
        ∃ written, attributesToJson other type attributes = .ok written
  | [], _, _ => ⟨[], rfl⟩
  | (name, value) :: rest, _, wrote => by
    rw [attributesToJson] at wrote
    obtain ⟨json, first, wrote⟩ := Outcomes.bind_ok.mp wrote
    obtain ⟨later, others, -⟩ := Outcomes.bind_ok.mp wrote
    obtain ⟨json, first⟩ := toJson_keyless other value (Outcomes.mapError_ok.mp first)
    obtain ⟨later, others⟩ := attributesToJson_keyless other type rest others
    exact ⟨_, by rw [attributesToJson, first, others]; rfl⟩
end

/-! ## Settled values -/

/-- Some map inside the value has the key. -/
def HasKey (key : String) (value : Value) : Prop :=
  ∃ entries, Occurs (.map entries) value ∧ key ∈ Fields.names entries

/-- All keys of maps inside the value are allowed. -/
def KeysWithin (allowed : String → Prop) (value : Value) : Prop :=
  ∀ key, value.HasKey key → allowed key

/-- With any of the special names that may come up every object inside is written alike, and reading
the value meets allowed keys only. -/
structure Settled (registry : Registry) (near : NameTable → Prop) (allowed : String → Prop)
    (value : Value) : Prop where
  keys : value.KeysWithin allowed
  objects : ∀ type attributes, Occurs (.object type attributes) value → ∃ entries,
    (∀ names, near names → toEntries (registry.keyOf names) type attributes = entries) ∧
      (Value.map entries).Objectless ∧ (Value.map entries).KeysWithin allowed

section

variable {registry : Registry} {near : NameTable → Prop} {allowed : String → Prop} {value : Value}

theorem Settled.inner {part : Value} (settled : value.Settled registry near allowed)
    (occurs : Occurs part value) : part.Settled registry near allowed where
  keys := fun key ⟨entries, inner, listed⟩ =>
    settled.keys key ⟨entries, inner.trans occurs, listed⟩
  objects := fun type attributes inner => settled.objects type attributes (inner.trans occurs)

theorem Objectless.settled (objectless : value.Objectless) (keys : value.KeysWithin allowed) :
    value.Settled registry near allowed where
  keys := keys
  objects := fun type attributes occurs => absurd occurs (objectless type attributes)

theorem Settled.null : Value.null.Settled registry near allowed :=
  Objectless.settled nofun fun _ ⟨_, occurs, _⟩ => nomatch occurs

end

end Value

end TypedSchema
