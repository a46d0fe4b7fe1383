import TypedSchema.Decode.Scalar
import TypedSchema.Encode
import TypedSchema.Proofs.Lists
import TypedSchema.Proofs.Outcomes
import TypedSchema.Proofs.Values.Keyed
import TypedSchema.Proofs.Values.Plain

/-!
Values that are written and read again. Data that was lifted from a document comes back as it was;
lists and objects come back as the data of their items and attributes.
-/

namespace TypedSchema.Value

/-! ## Lifted data -/

/-- Values that documents without repeated keys lift to. -/
inductive Lifted : Value → Prop where
  | null : Lifted .null
  | bool (value : Bool) : Lifted (.bool value)
  | integer (value : Int64) : Lifted (.integer value)
  | number (value : Binary64) : Lifted (.number value)
  | string (value : String) : Lifted (.string value)
  | list {items : List Value} (each : ∀ item ∈ items, Lifted item) : Lifted (.list items)
  | map {entries : List (String × Value)} (distinct : Fields.Distinct entries)
    (each : ∀ entry ∈ entries, Lifted entry.2) : Lifted (.map entries)

theorem Lifted.plain {value : Value} (lifted : Lifted value) : value.Plain := by
  induction lifted with
  | null => exact .null
  | bool value => exact .bool value
  | integer value => exact .integer value
  | number value => exact .number value
  | string value => exact .string value
  | list _ ih => exact .list ih
  | map _ _ ih => exact .map ih

theorem ofJsonItems_eq (items : List Json) : ofJsonItems items = items.map ofJson := by
  induction items with
  | nil => rfl
  | cons item rest ih => rw [ofJsonItems, List.map_cons, ih]

theorem ofJsonMembers_eq (members : List (String × Json)) :
    ofJsonMembers members = Fields.mapValues ofJson members := by
  induction members with
  | nil => rfl
  | cons entry rest ih =>
    rw [ofJsonMembers, ih]
    rfl

theorem names_ofJsonMembers (members : List (String × Json)) :
    Fields.names (ofJsonMembers members) = Fields.names members := by
  rw [ofJsonMembers_eq, Fields.names_mapValues]

theorem ofInt_lifted (value : Int) : Lifted (ofInt value) := by
  unfold ofInt
  split
  · exact .integer _
  · exact .number _

mutual
theorem ofJson_lifted : (json : Json) → json.keyed = true → Lifted (ofJson json)
  | .null, _ => .null
  | .bool value, _ => .bool value
  | .integer value, _ => ofInt_lifted value
  | .float value, _ => .number value
  | .string value, _ => .string value
  | .array items, keyed => .list (ofJsonItems_lifted items keyed)
  | .object members, keyed => by
    rw [Json.keyed, Bool.and_eq_true] at keyed
    refine .map ?_ (ofJsonMembers_lifted members keyed.2)
    rw [Fields.Distinct, names_ofJsonMembers]
    exact of_decide_eq_true keyed.1

theorem ofJsonItems_lifted : (items : List Json) → Json.keyedItems items = true →
    ∀ item ∈ ofJsonItems items, Lifted item
  | [], _, _, held => by cases held
  | first :: rest, keyed, item, held => by
    rw [Json.keyedItems, Bool.and_eq_true] at keyed
    cases List.mem_cons.mp held with
    | inl same => exact same ▸ ofJson_lifted first keyed.1
    | inr later => exact ofJsonItems_lifted rest keyed.2 item later

theorem ofJsonMembers_lifted : (members : List (String × Json)) →
    Json.keyedMembers members = true → ∀ entry ∈ ofJsonMembers members, Lifted entry.2
  | [], _, _, held => by cases held
  | (name, value) :: rest, keyed, entry, held => by
    rw [Json.keyedMembers, Bool.and_eq_true] at keyed
    cases List.mem_cons.mp held with
    | inl same => exact same ▸ ofJson_lifted value keyed.1
    | inr later => exact ofJsonMembers_lifted rest keyed.2 entry later
end

/-! ## Writing and reading again -/

/-- The data that a value is read as when it has been written. -/
def Rereads (keyOf : KeyOf) (value data : Value) : Prop :=
  ∃ json, value.toJson keyOf = .ok json ∧ data = .ofJson json

variable {keyOf : KeyOf} {data : Value}

theorem itemsToJson_ok {items : List Value} {index : Nat} {written : List Json}
    (encoded : itemsToJson keyOf index items = .ok written) :
    List.Forall₂ (fun item json => item.toJson keyOf = .ok json) items written := by
  induction items generalizing index written with
  | nil =>
    cases encoded
    exact .nil
  | cons item rest ih =>
    rw [itemsToJson] at encoded
    obtain ⟨first, firstEncoded, encoded⟩ := Outcomes.bind_ok.mp encoded
    obtain ⟨others, othersEncoded, last⟩ := Outcomes.bind_ok.mp encoded
    cases last
    exact .cons (Outcomes.mapError_ok.mp firstEncoded) (ih othersEncoded)

theorem entriesToJson_ok {entries : List (String × Value)} {written : List (String × Json)}
    (encoded : entriesToJson keyOf entries = .ok written) :
    List.Forall₂ (fun entry member => member.1 = entry.1 ∧
      entry.2.toJson keyOf = .ok member.2) entries written := by
  induction entries generalizing written with
  | nil =>
    cases encoded
    exact .nil
  | cons entry rest ih =>
    rw [entriesToJson] at encoded
    obtain ⟨first, firstEncoded, encoded⟩ := Outcomes.bind_ok.mp encoded
    obtain ⟨others, othersEncoded, last⟩ := Outcomes.bind_ok.mp encoded
    cases last
    exact .cons ⟨rfl, Outcomes.mapError_ok.mp firstEncoded⟩ (ih othersEncoded)

theorem attributesToJson_ok {type : String} {attributes : List (String × Value)}
    {written : List (String × Json)}
    (encoded : attributesToJson keyOf type attributes = .ok written) :
    List.Forall₂ (fun entry member => member.1 = keyOf type entry.1 ∧
      entry.2.toJson keyOf = .ok member.2) attributes written := by
  induction attributes generalizing written with
  | nil =>
    cases encoded
    exact .nil
  | cons entry rest ih =>
    rw [attributesToJson] at encoded
    obtain ⟨first, firstEncoded, encoded⟩ := Outcomes.bind_ok.mp encoded
    obtain ⟨others, othersEncoded, last⟩ := Outcomes.bind_ok.mp encoded
    cases last
    exact .cons ⟨rfl, Outcomes.mapError_ok.mp firstEncoded⟩ (ih othersEncoded)

theorem plainAttributes_eq (keyOf : KeyOf) (type : String) (attributes : Fields Value) :
    plainAttributes keyOf type attributes =
      attributes.map fun (name, value) => (keyOf type name, value.toPlain keyOf) := by
  induction attributes with
  | nil => rfl
  | cons entry rest ih => rw [plainAttributes, ih, List.map_cons]

theorem names_plainAttributes (type : String) (attributes : Fields Value) :
    Fields.names (plainAttributes keyOf type attributes) =
      (Fields.names attributes).map (keyOf type) := by
  simp [plainAttributes_eq, Fields.names, Function.comp_def]

/-- Members that were written for entries are read as entries of their keys. -/
theorem rereads_members {keys : String → String} {entries : List (String × Value)}
    {written : List (String × Json)}
    (each : List.Forall₂ (fun entry member => member.1 = keys entry.1 ∧
      entry.2.toJson keyOf = .ok member.2) entries written) :
    List.Forall₂ (fun entry other => other.1 = keys entry.1 ∧ Rereads keyOf entry.2 other.2)
      entries (ofJsonMembers written) := by
  rw [ofJsonMembers_eq]
  refine List.forall₂_map_right_iff.mpr (each.imp fun entry member held => ?_)
  exact ⟨held.1, member.2, held.2, rfl⟩

theorem Rereads.list {items : List Value} (rereads : Rereads keyOf (.list items) data) :
    ∃ again, data = .list again ∧ List.Forall₂ (Rereads keyOf) items again := by
  obtain ⟨json, encoded, rfl⟩ := rereads
  rw [toJson] at encoded
  obtain ⟨written, itemsEncoded, last⟩ := Outcomes.bind_ok.mp encoded
  cases last
  refine ⟨ofJsonItems written, rfl, ?_⟩
  rw [ofJsonItems_eq]
  refine List.forall₂_map_right_iff.mpr ((itemsToJson_ok itemsEncoded).imp fun item json held => ?_)
  exact ⟨json, held, rfl⟩

theorem Rereads.map {entries : List (String × Value)}
    (rereads : Rereads keyOf (.map entries) data) :
    ∃ again, data = .map (Fields.ofList again) ∧
      List.Forall₂ (fun entry other => other.1 = entry.1 ∧ Rereads keyOf entry.2 other.2)
        entries again := by
  obtain ⟨json, encoded, rfl⟩ := rereads
  rw [toJson] at encoded
  obtain ⟨written, entriesEncoded, last⟩ := Outcomes.bind_ok.mp encoded
  cases last
  refine ⟨ofJsonMembers written, ?_, @rereads_members _ id _ _ (entriesToJson_ok entriesEncoded)⟩
  rw [ofJson, ofJsonMembers_eq, ofJsonMembers_eq, Fields.ofList_mapValues]

theorem Rereads.object {type : String} {attributes : List (String × Value)}
    (rereads : Rereads keyOf (.object type attributes) data) :
    ∃ again, data = .map (Fields.ofList again) ∧
      List.Forall₂ (fun entry other => other.1 = keyOf type entry.1 ∧
        Rereads keyOf entry.2 other.2) attributes again := by
  obtain ⟨json, encoded, rfl⟩ := rereads
  rw [toJson] at encoded
  obtain ⟨written, attributesEncoded, last⟩ := Outcomes.bind_ok.mp encoded
  cases last
  refine ⟨ofJsonMembers written, ?_, rereads_members (attributesToJson_ok attributesEncoded)⟩
  rw [ofJson, ofJsonMembers_eq, ofJsonMembers_eq, Fields.ofList_mapValues]

theorem numberToJson_ok {value : Binary64} {json : Json}
    (encoded : numberToJson value = .ok json) : json = .float value := by
  unfold numberToJson at encoded
  split at encoded
  · cases encoded
    rfl
  · cases encoded

theorem Rereads.number {value : Binary64} (rereads : Rereads keyOf (.number value) data) :
    data = .number value := by
  obtain ⟨json, encoded, rfl⟩ := rereads
  rw [numberToJson_ok encoded, ofJson]

theorem isInteger_toInt (value : Int64) : isInteger value.toInt = true := by
  have lower := value.minValue_le_toInt
  have upper := value.toInt_le
  simp only [isInteger, Bool.and_eq_true, decide_eq_true_eq]
  constructor
  · simpa using lower
  · have last : Int64.maxValue.toInt = 0x7fffffffffffffff := by decide
    omega

theorem toInt_ofInt {value : Int} (bounded : isInteger value = true) :
    (Int64.ofInt value).toInt = value := by
  simp only [isInteger, Bool.and_eq_true, decide_eq_true_eq] at bounded
  exact Int64.toInt_ofInt_of_le (by omega) (by omega)

theorem ofInt_toInt (value : Int64) : ofInt value.toInt = .integer value := by
  rw [ofInt, if_pos (isInteger_toInt value), Int64.ofInt_toInt]

/-- Lifted data comes back as it was. -/
theorem Rereads.of_lifted {value : Value} (lifted : Lifted value)
    (rereads : Rereads keyOf value data) : data = value := by
  induction lifted generalizing data with
  | null =>
    obtain ⟨json, encoded, rfl⟩ := rereads
    cases encoded
    rfl
  | bool value =>
    obtain ⟨json, encoded, rfl⟩ := rereads
    cases encoded
    rfl
  | integer value =>
    obtain ⟨json, encoded, rfl⟩ := rereads
    cases encoded
    exact ofInt_toInt value
  | number value => exact rereads.number
  | string value =>
    obtain ⟨json, encoded, rfl⟩ := rereads
    cases encoded
    rfl
  | list _ ih =>
    obtain ⟨again, rfl, each⟩ := rereads.list
    have same : again = _ := Lists.eq_of_related each fun item member other => ih item member
    rw [same]
  | map distinct _ ih =>
    obtain ⟨again, rfl, each⟩ := rereads.map
    have same : again = _ := Lists.eq_of_related each fun entry member other held =>
      Prod.ext held.1 (ih entry member held.2)
    rw [same, Fields.ofList_of_distinct distinct]

/-- Null is written for null, and for a member whose literal is written as null. -/
theorem Rereads.null {value : Value} (rereads : Rereads keyOf value .null) :
    value = .null ∨ ∃ member, value = .member member := by
  obtain ⟨json, encoded, read⟩ := rereads
  cases json with
  | null =>
    cases value with
    | null => exact .inl rfl
    | member member => exact .inr ⟨member, rfl⟩
    | number value =>
      rw [toJson, numberToJson] at encoded
      split at encoded <;> cases encoded
    | list items =>
      rw [toJson] at encoded
      obtain ⟨written, -, last⟩ := Outcomes.bind_ok.mp encoded
      cases last
    | map entries =>
      rw [toJson] at encoded
      obtain ⟨written, -, last⟩ := Outcomes.bind_ok.mp encoded
      cases last
    | object type attributes =>
      rw [toJson] at encoded
      obtain ⟨written, -, last⟩ := Outcomes.bind_ok.mp encoded
      cases last
    | _ => cases encoded
  | integer value =>
    rw [ofJson, ofInt] at read
    split at read <;> cases read
  | _ => cases read

/-! ## Texts -/

/-- Every timestamp and identifier in a value is read from its text as it is. -/
structure TextsReturn (value : Value) : Prop where
  timestamps : ∀ time, Occurs (.timestamp time) value →
    Time.Timestamp.ofText? time.text = some time
  identifiers : ∀ id, Occurs (.uuid id) value → Uuid.ofText? (Text.trim id.text.toList) = some id

namespace TextsReturn

theorem item {items : List Value} (returns : TextsReturn (.list items)) {item : Value}
    (member : item ∈ items) : TextsReturn item where
  timestamps := fun time occurs => returns.timestamps time (.item member occurs)
  identifiers := fun id occurs => returns.identifiers id (.item member occurs)

theorem field {type : String} {attributes : List (String × Value)}
    (returns : TextsReturn (.object type attributes)) {name : String} {value : Value}
    (member : (name, value) ∈ attributes) : TextsReturn value where
  timestamps := fun time occurs => returns.timestamps time (.field member occurs)
  identifiers := fun id occurs => returns.identifiers id (.field member occurs)

end TextsReturn

end TypedSchema.Value
