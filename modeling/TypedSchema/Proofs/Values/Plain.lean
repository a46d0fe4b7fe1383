import TypedSchema.Value.Basic

/-!
Plain values and what occurs in a value. Data that was lifted from a document holds no objects, no
members of enumerations, no timestamps and no identifiers.
-/

namespace TypedSchema.Value

/-- Values that documents lift to. -/
inductive Plain : Value → Prop where
  | null : Plain .null
  | bool (value : Bool) : Plain (.bool value)
  | integer (value : Int64) : Plain (.integer value)
  | number (value : Binary64) : Plain (.number value)
  | string (value : String) : Plain (.string value)
  | list {items : List Value} (each : ∀ item ∈ items, Plain item) : Plain (.list items)
  | map {entries : List (String × Value)} (each : ∀ entry ∈ entries, Plain entry.2) :
    Plain (.map entries)

/-- A value occurs in itself, and wherever it occurs in an item, an entry or an attribute. -/
inductive Occurs (part : Value) : Value → Prop where
  | self : Occurs part part
  | item {items : List Value} {item : Value} (member : item ∈ items) (inner : Occurs part item) :
    Occurs part (.list items)
  | entry {entries : List (String × Value)} {name : String} {value : Value}
    (member : (name, value) ∈ entries) (inner : Occurs part value) : Occurs part (.map entries)
  | field {type : String} {attributes : List (String × Value)} {name : String} {value : Value}
    (member : (name, value) ∈ attributes) (inner : Occurs part value) :
    Occurs part (.object type attributes)

theorem Occurs.trans {part whole value : Value} (inner : Occurs part whole)
    (outer : Occurs whole value) : Occurs part value := by
  induction outer with
  | self => exact inner
  | item member _ ih => exact .item member ih
  | entry member _ ih => exact .entry member ih
  | field member _ ih => exact .field member ih

theorem ofInt_plain (value : Int) : Plain (ofInt value) := by
  unfold ofInt
  split
  · exact .integer _
  · exact .number _

mutual
theorem ofJson_plain : (json : Json) → Plain (ofJson json)
  | .null => .null
  | .bool value => .bool value
  | .integer value => ofInt_plain value
  | .float value => .number value
  | .string value => .string value
  | .array items => .list (ofJsonItems_plain items)
  | .object members => .map (ofJsonMembers_plain members)

theorem ofJsonItems_plain : (items : List Json) → ∀ item ∈ ofJsonItems items, Plain item
  | [], _, held => by cases held
  | first :: rest, item, held => by
    cases List.mem_cons.mp held with
    | inl same => exact same ▸ ofJson_plain first
    | inr later => exact ofJsonItems_plain rest item later

theorem ofJsonMembers_plain : (members : List (String × Json)) →
    ∀ entry ∈ ofJsonMembers members, Plain entry.2
  | [], _, held => by cases held
  | (name, value) :: rest, entry, held => by
    cases List.mem_cons.mp held with
    | inl same => exact same ▸ ofJson_plain value
    | inr later => exact ofJsonMembers_plain rest entry later
end

/-- No object occurs in plain data. -/
theorem Plain.no_object {value : Value} (plain : Plain value) (type : String)
    (attributes : List (String × Value)) : ¬Occurs (.object type attributes) value := by
  intro occurs
  induction occurs with
  | self => cases plain
  | item member _ ih =>
    cases plain with
    | list each => exact ih (each _ member)
  | entry member _ ih =>
    cases plain with
    | map each => exact ih (each _ member)
  | field => cases plain

end TypedSchema.Value
