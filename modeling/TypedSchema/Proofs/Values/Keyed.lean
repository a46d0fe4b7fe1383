import TypedSchema.Proofs.Fields
import TypedSchema.Schema.Document

/-!
Documents in which no object has a key twice, as all documents are that were read.
-/

namespace TypedSchema

namespace Json

mutual
/-- Whether no object inside has a key twice. -/
def keyed : Json → Bool
  | .array items => keyedItems items
  | .object members => decide (Fields.Distinct members) && keyedMembers members
  | _ => true

def keyedItems : List Json → Bool
  | [] => true
  | item :: rest => keyed item && keyedItems rest

def keyedMembers : List (String × Json) → Bool
  | [] => true
  | (_, value) :: rest => keyed value && keyedMembers rest
end

/-- Documents in which no object has a key twice. -/
abbrev Keyed := { json : Json // json.keyed = true }

theorem keyed_array_iff {items : List Json} :
    (Json.array items).keyed = true ↔ ∀ item ∈ items, item.keyed = true := by
  rw [keyed]
  induction items with
  | nil => simp [keyedItems]
  | cons first rest ih => rw [keyedItems, Bool.and_eq_true, ih, List.forall_mem_cons]

theorem keyed_object_iff {members : Fields Json} : (Json.object members).keyed = true ↔
    Fields.Distinct members ∧ ∀ entry ∈ members, entry.2.keyed = true := by
  have each : keyedMembers members = true ↔ ∀ entry ∈ members, entry.2.keyed = true := by
    induction members with
    | nil => simp [keyedMembers]
    | cons first rest ih => rw [keyedMembers, Bool.and_eq_true, ih, List.forall_mem_cons]
  rw [keyed, Bool.and_eq_true, decide_eq_true_eq, each]

theorem keyed_of_item {items : List Json} (whole : (Json.array items).keyed = true) {item : Json}
    (member : item ∈ items) : item.keyed = true :=
  keyed_array_iff.mp whole item member

theorem keyed_distinct {members : Fields Json} (whole : (Json.object members).keyed = true) :
    Fields.Distinct members :=
  (keyed_object_iff.mp whole).1

theorem keyed_of_member {members : Fields Json} (whole : (Json.object members).keyed = true)
    {entry : String × Json} (member : entry ∈ members) : entry.2.keyed = true :=
  (keyed_object_iff.mp whole).2 entry member

end Json

/-- Documents of schemas without repeated keys. -/
abbrev Document.Keyed :=
  { document : Document // ∀ entry ∈ document.definitions, entry.2.toJson.keyed = true }

end TypedSchema
