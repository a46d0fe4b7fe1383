import TypedSchema.Proofs.Values.Rereading

/-!
Writing a value and writing its plain form. Attributes with the same key replace one another before
the plain form is written, but only after the value itself has been: so where the value can be
written, both documents are the same, and where no key comes twice, both fail in the same place.
-/

namespace TypedSchema.Value

/-! ## Members of enumerations -/

mutual
theorem toJson_ofJson (later : KeyOf) : (json : Json) → (ofJson json).toJson later = relift json
  | .null => rfl
  | .bool _ => rfl
  | .integer value => by
    rw [ofJson, ofInt, relift]
    split
    · rename_i bounded
      rw [toJson, toInt_ofInt bounded]
    · rw [toJson]
  | .float _ => rfl
  | .string _ => rfl
  | .array items => by rw [ofJson, toJson, relift, itemsToJson_ofJson later 0 items]
  | .object members => by rw [ofJson, toJson, relift, entriesToJson_ofJson later members]

theorem itemsToJson_ofJson (later : KeyOf) (index : Nat) : (items : List Json) →
    itemsToJson later index (ofJsonItems items) = reliftItems index items
  | [] => rfl
  | item :: rest => by
    rw [ofJsonItems, itemsToJson, reliftItems, toJson_ofJson later item,
      itemsToJson_ofJson later (index + 1) rest]

theorem entriesToJson_ofJson (later : KeyOf) : (members : List (String × Json)) →
    entriesToJson later (ofJsonMembers members) = reliftMembers members
  | [] => rfl
  | (name, value) :: rest => by
    rw [ofJsonMembers, entriesToJson, reliftMembers, toJson_ofJson later value,
      entriesToJson_ofJson later rest]
end

theorem toJson_member (later : KeyOf) (held : Member) :
    held.toPlain.toJson later = memberToJson held := by
  rw [Member.toPlain, memberToJson]
  cases held.literal with
  | some literal => exact toJson_ofJson later literal
  | none => cases description : held.description <;> simp [Member.toEntries, description] <;> rfl

/-! ## What can be written -/

/-- A member of a document that an entry is written as. -/
def WrittenAs (keyOf : KeyOf) (entry : String × Value) (member : String × Json) : Prop :=
  member.1 = entry.1 ∧ entry.2.toJson keyOf = .ok member.2

theorem entriesToJson_of_written {keyOf : KeyOf} {entries : List (String × Value)}
    {written : List (String × Json)} (each : List.Forall₂ (WrittenAs keyOf) entries written) :
    entriesToJson keyOf entries = .ok written := by
  induction each with
  | nil => rfl
  | cons first _ ih =>
    rename_i entry member _ _ _
    obtain ⟨same, wrote⟩ := first
    rw [entriesToJson, wrote, ih, ← same]
    rfl

theorem insert_written {keyOf : KeyOf} {entries : Fields Value} {written : Fields Json}
    (each : List.Forall₂ (WrittenAs keyOf) entries written) {entry : String × Value}
    {member : String × Json} (added : WrittenAs keyOf entry member) :
    List.Forall₂ (WrittenAs keyOf) (Fields.insert entries entry.1 entry.2)
      (Fields.insert written member.1 member.2) := by
  induction each with
  | nil => exact .cons added .nil
  | cons first rest ih =>
    -- Both have the same names in the same places, so the same place is taken in both.
    rename_i held other _ _
    rw [Fields.insert, Fields.insert, first.1, added.1]
    split
    · exact .cons ⟨rfl, added.2⟩ rest
    · exact .cons ⟨rfl, first.2⟩ (added.1 ▸ ih)

/-- A later entry replaces an earlier one of its name in what is written, too. -/
theorem ofList_written {keyOf : KeyOf} {entries : List (String × Value)}
    {written : List (String × Json)} (each : List.Forall₂ (WrittenAs keyOf) entries written) :
    List.Forall₂ (WrittenAs keyOf) (Fields.ofList entries) (Fields.ofList written) := by
  have inserted : ∀ {sofar : Fields Value} {others : Fields Json},
      List.Forall₂ (WrittenAs keyOf) sofar others →
      List.Forall₂ (WrittenAs keyOf) (Fields.insertAll sofar entries)
        (Fields.insertAll others written) := by
    induction each with
    | nil => exact fun related => related
    | cons first _ ih => exact fun related => ih (insert_written related first)
  exact inserted .nil

mutual
/-- A document that a value is written as is the one of its plain form. -/
theorem toJson_toPlain_ok {keyOf : KeyOf} (later : KeyOf) : (value : Value) → {json : Json} →
    value.toJson keyOf = .ok json → (value.toPlain keyOf).toJson later = .ok json
  | .object type attributes, _, wrote => by
    rw [toJson] at wrote
    obtain ⟨members, inner, last⟩ := Outcomes.bind_ok.mp wrote
    cases last
    -- The keys are put together twice for the plain form, the second time to no effect.
    have each := ofList_written (plainAttributes_written later type attributes inner)
    rw [toPlain, toJson, entriesToJson_of_written each]
    exact congrArg (Except.ok ∘ Json.object)
      (Fields.ofList_of_distinct (Fields.distinct_ofList members))
  | .list items, _, wrote => by
    rw [toJson] at wrote
    obtain ⟨written, inner, last⟩ := Outcomes.bind_ok.mp wrote
    cases last
    rw [toPlain, toJson, plainItems_written later 0 items inner]
    rfl
  | .map entries, _, wrote => by
    rw [toJson] at wrote
    obtain ⟨members, inner, last⟩ := Outcomes.bind_ok.mp wrote
    cases last
    rw [toPlain, toJson, entriesToJson_of_written (plainEntries_written later entries inner)]
    rfl
  | .member held, json, wrote => (toJson_member later held).trans wrote
  | .null, _, wrote => wrote
  | .bool _, _, wrote => wrote
  | .integer _, _, wrote => wrote
  | .number _, _, wrote => wrote
  | .string _, _, wrote => wrote
  | .timestamp _, _, wrote => wrote
  | .uuid _, _, wrote => wrote

theorem plainItems_written {keyOf : KeyOf} (later : KeyOf) (index : Nat) :
    (items : List Value) → {written : List Json} →
      itemsToJson keyOf index items = .ok written →
        itemsToJson later index (plainItems keyOf items) = .ok written
  | [], _, wrote => wrote
  | item :: rest, _, wrote => by
    rw [itemsToJson] at wrote
    obtain ⟨json, first, wrote⟩ := Outcomes.bind_ok.mp wrote
    obtain ⟨others, inner, last⟩ := Outcomes.bind_ok.mp wrote
    cases last
    rw [plainItems, itemsToJson, toJson_toPlain_ok later item (Outcomes.mapError_ok.mp first),
      plainItems_written later (index + 1) rest inner]
    rfl

theorem plainEntries_written {keyOf : KeyOf} (later : KeyOf) :
    (entries : List (String × Value)) → {written : List (String × Json)} →
      entriesToJson keyOf entries = .ok written →
        List.Forall₂ (WrittenAs later) (plainEntries keyOf entries) written
  | [], _, wrote => by
    cases wrote
    exact .nil
  | (name, value) :: rest, _, wrote => by
    rw [entriesToJson] at wrote
    obtain ⟨json, first, wrote⟩ := Outcomes.bind_ok.mp wrote
    obtain ⟨others, inner, last⟩ := Outcomes.bind_ok.mp wrote
    cases last
    exact .cons ⟨rfl, toJson_toPlain_ok later value (Outcomes.mapError_ok.mp first)⟩
      (plainEntries_written later rest inner)

theorem plainAttributes_written {keyOf : KeyOf} (later : KeyOf) (type : String) :
    (attributes : List (String × Value)) → {written : List (String × Json)} →
      attributesToJson keyOf type attributes = .ok written →
        List.Forall₂ (WrittenAs later) (plainAttributes keyOf type attributes) written
  | [], _, wrote => by
    cases wrote
    exact .nil
  | (name, value) :: rest, _, wrote => by
    rw [attributesToJson] at wrote
    obtain ⟨json, first, wrote⟩ := Outcomes.bind_ok.mp wrote
    obtain ⟨others, inner, last⟩ := Outcomes.bind_ok.mp wrote
    cases last
    exact .cons ⟨rfl, toJson_toPlain_ok later value (Outcomes.mapError_ok.mp first)⟩
      (plainAttributes_written later type rest inner)
end

/-! ## What cannot be written -/

/-- No object inside has two attributes with the same key. -/
def Unambiguous (keyOf : KeyOf) (value : Value) : Prop :=
  ∀ type attributes, Occurs (.object type attributes) value →
    ((Fields.names attributes).map (keyOf type)).Nodup

theorem Unambiguous.inner {keyOf : KeyOf} {part value : Value}
    (unambiguous : value.Unambiguous keyOf) (occurs : Occurs part value) :
    part.Unambiguous keyOf :=
  fun type attributes inner => unambiguous type attributes (inner.trans occurs)

mutual
/-- Where no key comes twice, a value and its plain form are written alike or fail alike. -/
theorem toJson_toPlain_of_unambiguous {keyOf : KeyOf} (later : KeyOf) : (value : Value) →
    value.Unambiguous keyOf → (value.toPlain keyOf).toJson later = value.toJson keyOf
  | .object type attributes, unambiguous => by
    have keys : Fields.Distinct (plainAttributes keyOf type attributes) := by
      rw [Fields.Distinct, names_plainAttributes]
      exact unambiguous type attributes .self
    rw [toPlain, Fields.ofList_of_distinct keys, toJson, toJson,
      entriesToJson_plainAttributes later type attributes fun entry member =>
        unambiguous.inner (.field member .self)]
  | .list items, unambiguous => by
    rw [toPlain, toJson, toJson, itemsToJson_plainItems later 0 items fun item member =>
      unambiguous.inner (.item member .self)]
  | .map entries, unambiguous => by
    rw [toPlain, toJson, toJson, entriesToJson_plainEntries later entries fun entry member =>
      unambiguous.inner (.entry member .self)]
  | .member held, _ => toJson_member later held
  | .null, _ => rfl
  | .bool _, _ => rfl
  | .integer _, _ => rfl
  | .number _, _ => rfl
  | .string _, _ => rfl
  | .timestamp _, _ => rfl
  | .uuid _, _ => rfl

theorem itemsToJson_plainItems {keyOf : KeyOf} (later : KeyOf) (index : Nat) :
    (items : List Value) → (∀ item ∈ items, item.Unambiguous keyOf) →
      itemsToJson later index (plainItems keyOf items) = itemsToJson keyOf index items
  | [], _ => rfl
  | item :: rest, each => by
    rw [plainItems, itemsToJson, itemsToJson,
      toJson_toPlain_of_unambiguous later item (each item List.mem_cons_self),
      itemsToJson_plainItems later (index + 1) rest fun other member =>
        each other (List.mem_cons_of_mem _ member)]

theorem entriesToJson_plainEntries {keyOf : KeyOf} (later : KeyOf) :
    (entries : List (String × Value)) → (∀ entry ∈ entries, entry.2.Unambiguous keyOf) →
      entriesToJson later (plainEntries keyOf entries) = entriesToJson keyOf entries
  | [], _ => rfl
  | (name, value) :: rest, each => by
    rw [plainEntries, entriesToJson, entriesToJson,
      toJson_toPlain_of_unambiguous later value (each _ List.mem_cons_self),
      entriesToJson_plainEntries later rest fun other member =>
        each other (List.mem_cons_of_mem _ member)]

theorem entriesToJson_plainAttributes {keyOf : KeyOf} (later : KeyOf) (type : String) :
    (attributes : List (String × Value)) → (∀ entry ∈ attributes, entry.2.Unambiguous keyOf) →
      entriesToJson later (plainAttributes keyOf type attributes) =
        attributesToJson keyOf type attributes
  | [], _ => rfl
  | (name, value) :: rest, each => by
    rw [plainAttributes, entriesToJson, attributesToJson,
      toJson_toPlain_of_unambiguous later value (each _ List.mem_cons_self),
      entriesToJson_plainAttributes later type rest fun other member =>
        each other (List.mem_cons_of_mem _ member)]
end

/-! ## Both encoders -/

/-- If a value can be written, its plain form is written as the same document, with the members in
the same order. If moreover no object inside has two attributes with the same key, either fails
where the other does, with the same message. The plain form of an object is the map of its
entries. -/
theorem toJson_toPlain (keyOf later : KeyOf) (value : Value) :
    (∀ json, value.toJson keyOf = .ok json → (value.toPlain keyOf).toJson later = .ok json) ∧
    (value.Unambiguous keyOf → (value.toPlain keyOf).toJson later = value.toJson keyOf) ∧
    ∀ type attributes, value = .object type attributes →
      value.toPlain keyOf = .map (toEntries keyOf type attributes) := by
  refine ⟨fun json => toJson_toPlain_ok later value, toJson_toPlain_of_unambiguous later value, ?_⟩
  rintro type attributes rfl
  rfl

/-- Both fail at a number that is not finite, with the path to its place in the list. -/
theorem toJson_toPlain_notFinite :
    (Value.object "Sample" [("masses", .list [.number (.nan false)])]).toJson (fun _ name => name) =
        .error (.encode [.field "masses", .index 0] (.notFinite (.nan false))) ∧
      ((Value.object "Sample" [("masses", .list [.number (.nan false)])]).toPlain
        fun _ name => name).toJson (fun _ _ => "") =
          .error (.encode [.field "masses", .index 0] (.notFinite (.nan false))) := by
  have fails : (Value.object "Sample" [("masses", .list [.number (.nan false)])]).toJson
      (fun _ name => name) =
        .error (.encode [.field "masses", .index 0] (.notFinite (.nan false))) := rfl
  have unambiguous : (Value.object "Sample" [("masses", .list [.number (.nan false)])]).Unambiguous
      fun _ name => name := by
    intro type attributes occurs
    cases occurs with
    | self => simp [Fields.names]
    | field member inner =>
      obtain ⟨rfl, rfl⟩ : _ = "masses" ∧ _ = Value.list [.number (.nan false)] := by
        simpa using member
      cases inner with
      | item member inner =>
        obtain rfl := List.mem_singleton.mp member
        cases inner
  exact ⟨fails, ((toJson_toPlain _ (fun _ _ => "") _).2.1 unambiguous).trans fails⟩

/-- An attribute that cannot be written disappears behind a later one of the same key. -/
example :
    (Value.object "Sample" [("mass", .number (.nan false)), ("Mass", .null)]).toJson
        (fun _ _ => "Mass") = .error (.encode [.field "Mass"] (.notFinite (.nan false))) ∧
      ((Value.object "Sample" [("mass", .number (.nan false)), ("Mass", .null)]).toPlain
        fun _ _ => "Mass").toJson (fun _ _ => "") = .ok (.object [("Mass", .null)]) :=
  ⟨rfl, rfl⟩

end TypedSchema.Value
