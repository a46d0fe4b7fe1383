import TypedSchema.Encode
import TypedSchema.Proofs.Fields

/-!
How deep values are nested. Data that is lifted from a document is nested as deep as the document,
and writing a value as plain data nests it no deeper.
-/

namespace TypedSchema.Value

theorem rankOfItems_le_iff {items : List Value} {bound : Nat} :
    rankOfItems items ≤ bound ↔ ∀ item ∈ items, item.rank ≤ bound := by
  induction items with
  | nil => simp [rankOfItems]
  | cons first rest ih => simp only [rankOfItems, Nat.max_le, ih, List.forall_mem_cons]

theorem rankOfEntries_le_iff {entries : List (String × Value)} {bound : Nat} :
    rankOfEntries entries ≤ bound ↔ ∀ entry ∈ entries, entry.2.rank ≤ bound := by
  induction entries with
  | nil => simp [rankOfEntries]
  | cons first rest ih => simp only [rankOfEntries, Nat.max_le, ih, List.forall_mem_cons]

theorem rankOfItems_values (entries : Fields Value) :
    rankOfItems (Fields.values entries) = rankOfEntries entries := by
  induction entries with
  | nil => rfl
  | cons entry rest ih =>
    rw [rankOfEntries, ← ih, Fields.values, List.map_cons, rankOfItems]
    rfl

/-! ## Lifted data -/

mutual
theorem rank_ofJson : (json : Json) → (ofJson json).rank = json.depth
  | .array items => by rw [ofJson, rank, rank_ofJsonItems items, Json.depth]
  | .object members => by rw [ofJson, rank, rank_ofJsonMembers members, Json.depth]
  | .integer value => by
    rw [ofJson, ofInt]
    split <;> rfl
  | .null => rfl
  | .bool _ => rfl
  | .float _ => rfl
  | .string _ => rfl

theorem rank_ofJsonItems :
    (items : List Json) → rankOfItems (ofJsonItems items) = Json.depthOfItems items
  | [] => rfl
  | item :: rest => by
    rw [ofJsonItems, rankOfItems, rank_ofJson item, rank_ofJsonItems rest, Json.depthOfItems]

theorem rank_ofJsonMembers : (members : List (String × Json)) →
    rankOfEntries (ofJsonMembers members) = Json.depthOfMembers members
  | [] => rfl
  | (_, value) :: rest => by
    rw [ofJsonMembers, rankOfEntries, rank_ofJson value, rank_ofJsonMembers rest,
      Json.depthOfMembers]
end

/-! ## Plain forms -/

theorem rank_member (held : Member) : held.toPlain.rank = memberRank held := by
  unfold Member.toPlain memberRank
  cases held.literal with
  | some literal => exact rank_ofJson literal
  | none =>
    unfold Member.toEntries
    cases held.description <;> rfl

mutual
theorem rank_toPlain (keyOf : KeyOf) : (value : Value) → (toPlain keyOf value).rank ≤ value.rank
  | .object type attributes => by
    rw [toPlain, rank, rank]
    refine Nat.succ_le_succ (rankOfEntries_le_iff.mpr fun entry held => ?_)
    have listed := (Fields.mem_insertAll held).resolve_right List.not_mem_nil
    exact rankOfEntries_le_iff.mp (rank_plainAttributes keyOf type attributes) entry listed
  | .member held => Nat.le_of_eq (rank_member held)
  | .list items => Nat.succ_le_succ (rank_plainItems keyOf items)
  | .map entries => Nat.succ_le_succ (rank_plainEntries keyOf entries)
  | .null => Nat.le_refl 1
  | .bool _ => Nat.le_refl 1
  | .integer _ => Nat.le_refl 1
  | .number _ => Nat.le_refl 1
  | .string _ => Nat.le_refl 1
  | .timestamp _ => Nat.le_refl 1
  | .uuid _ => Nat.le_refl 1

theorem rank_plainItems (keyOf : KeyOf) :
    (items : List Value) → rankOfItems (plainItems keyOf items) ≤ rankOfItems items
  | [] => Nat.le_refl 0
  | item :: rest => by
    have first := rank_toPlain keyOf item
    have others := rank_plainItems keyOf rest
    rw [plainItems, rankOfItems, rankOfItems]
    omega

theorem rank_plainEntries (keyOf : KeyOf) :
    (entries : List (String × Value)) →
      rankOfEntries (plainEntries keyOf entries) ≤ rankOfEntries entries
  | [] => Nat.le_refl 0
  | (_, value) :: rest => by
    have first := rank_toPlain keyOf value
    have others := rank_plainEntries keyOf rest
    rw [plainEntries, rankOfEntries, rankOfEntries]
    omega

theorem rank_plainAttributes (keyOf : KeyOf) (type : String) :
    (attributes : List (String × Value)) →
      rankOfEntries (plainAttributes keyOf type attributes) ≤ rankOfEntries attributes
  | [] => Nat.le_refl 0
  | (_, value) :: rest => by
    have first := rank_toPlain keyOf value
    have others := rank_plainAttributes keyOf type rest
    rw [plainAttributes, rankOfEntries, rankOfEntries]
    omega
end

/-- The attributes of an object are of lower rank, also in its plain form. -/
theorem rank_lt_of_toEntries {keyOf : KeyOf} {type : String} {attributes : Fields Value}
    {entry : String × Value} (held : entry ∈ toEntries keyOf type attributes) :
    entry.2.rank < (object type attributes).rank :=
  Nat.lt_of_lt_of_le
    (Nat.lt_succ_of_le (rankOfEntries_le_iff.mp (Nat.le_refl _) entry held))
    (rank_toPlain keyOf (object type attributes))

end TypedSchema.Value
