import Mathlib.Logic.Relation
import TypedSchema.Proofs.Values.Keyed

/-!
Documents inside others. What stands inside is nested less deep, and has no key twice where the
whole has none.
-/

namespace TypedSchema.Json

/-- What an array or an object holds. -/
inductive Child : Json → Json → Prop where
  | item {items : List Json} {item : Json} (listed : item ∈ items) : Child item (.array items)
  | member {members : Fields Json} {entry : String × Json} (listed : entry ∈ members) :
    Child entry.2 (.object members)

/-- Documents that stand at any depth inside another. -/
abbrev Inside : Json → Json → Prop :=
  Relation.TransGen Child

theorem depth_le_depthOfItems {items : List Json} {item : Json} (listed : item ∈ items) :
    item.depth ≤ depthOfItems items := by
  induction items with
  | nil => cases listed
  | cons first rest ih =>
    rw [depthOfItems]
    cases List.mem_cons.mp listed with
    | inl same =>
      subst same
      omega
    | inr later =>
      have below := ih later
      omega

theorem depth_le_depthOfMembers {members : Fields Json} {entry : String × Json}
    (listed : entry ∈ members) : entry.2.depth ≤ depthOfMembers members := by
  induction members with
  | nil => cases listed
  | cons first rest ih =>
    rw [depthOfMembers]
    cases List.mem_cons.mp listed with
    | inl same =>
      subst same
      omega
    | inr later =>
      have below := ih later
      omega

theorem Child.depth_lt {inner outer : Json} (child : Child inner outer) :
    inner.depth < outer.depth := by
  cases child with
  | item listed =>
    rw [depth]
    exact Nat.lt_succ_of_le (depth_le_depthOfItems listed)
  | member listed =>
    rw [depth]
    exact Nat.lt_succ_of_le (depth_le_depthOfMembers listed)

theorem Child.keyed {inner outer : Json} (child : Child inner outer)
    (whole : outer.keyed = true) : inner.keyed = true := by
  cases child with
  | item listed => exact keyed_of_item whole listed
  | member listed => exact keyed_of_member whole listed

theorem Inside.depth_lt {inner outer : Json} (inside : Inside inner outer) :
    inner.depth < outer.depth := by
  induction inside with
  | single child => exact child.depth_lt
  | tail _ child ih => exact Nat.lt_trans ih child.depth_lt

theorem Inside.keyed {inner outer : Json} (inside : Inside inner outer)
    (whole : outer.keyed = true) : inner.keyed = true := by
  induction inside with
  | single child => exact child.keyed whole
  | tail _ child ih => exact ih (child.keyed whole)

theorem child_of_member? {json inner : Json} {name : String}
    (found : json.member? name = some inner) : Child inner json := by
  obtain ⟨members, object, held⟩ := Option.bind_eq_some_iff.mp found
  cases json with
  | object all =>
    cases object
    exact .member (Fields.mem_of_get? held)
  | _ => cases object

end TypedSchema.Json
