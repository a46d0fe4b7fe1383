import TypedSchema.Proofs.EncodersAgree
import TypedSchema.Proofs.Values.Comparing
import TypedSchema.Proofs.Values.Nearest

/-!
Documents that are lifted to plain data and written again. Values hold integers of 64 bits with a
sign, documents hold those of 64 bits without one as well: these become numbers on the way, and all
else comes back.
-/

namespace TypedSchema

open Relation (ReflTransGen)

namespace Json

/-- A document as it is held in memory: proper, and with no integers but those that are kept
exact. -/
structure Held (json : Json) : Prop extends json.Proper where
  exact : ∀ value, ReflTransGen Child (.integer value) json → isExact value = true

theorem Child.held {inner outer : Json} (child : Child inner outer) (held : outer.Held) :
    inner.Held :=
  ⟨child.proper held.toProper, fun value inside => held.exact value (inside.tail child)⟩

theorem Held.within {inner outer : Json} (held : outer.Held)
    (inside : ReflTransGen Child inner outer) : inner.Held := by
  induction inside with
  | refl => exact held
  | tail _ child ih => exact ih (child.held held)

theorem Held.single {json : Json} (childless : ∀ inner, ¬ Child inner json)
    (finite : ∀ x, json = .float x → x.isFinite = true)
    (exact : ∀ value, json = .integer value → isExact value = true) : json.Held := by
  refine ⟨.single childless finite, fun value inside => ?_⟩
  cases inside with
  | refl => exact exact value rfl
  | tail _ child => exact absurd child (childless _)

theorem Held.object {members : Fields Json} (distinct : Fields.Distinct members)
    (each : ∀ entry ∈ members, entry.2.Held) : (Json.object members).Held := by
  refine ⟨.object distinct fun entry listed => (each entry listed).toProper, fun value inside => ?_⟩
  cases inside with
  | tail inner child =>
    cases child with
    | member listed => exact (each _ listed).exact value inner

mutual
/-- The document with the nearest number for every integer above those of 64 bits. -/
def narrowed : Json → Json
  | .integer value => if Value.isInteger value then .integer value else .float (.ofInt value)
  | .array items => .array (narrowedItems items)
  | .object members => .object (narrowedMembers members)
  | other => other

def narrowedItems : List Json → List Json
  | [] => []
  | item :: rest => narrowed item :: narrowedItems rest

def narrowedMembers : List (String × Json) → List (String × Json)
  | [] => []
  | (name, value) :: rest => (name, narrowed value) :: narrowedMembers rest
end

theorem names_narrowedMembers (members : Fields Json) :
    Fields.names (narrowedMembers members) = Fields.names members := by
  induction members with
  | nil => rfl
  | cons entry rest ih => exact congrArg (entry.1 :: ·) ih

/-! ## What is narrowed -/

/-- The integers that are kept exact in documents, but not in values. -/
theorem exact_not_integer_iff {value : Int} :
    (isExact value = true ∧ Value.isInteger value = false) ↔
      0x8000000000000000 ≤ value ∧ value < 0x10000000000000000 := by
  simp only [isExact, Value.isInteger, Bool.and_eq_true, Bool.and_eq_false_iff, decide_eq_true_eq,
    decide_eq_false_iff_not]
  omega

theorem log2_of_wide {size : Nat} (least : 2 ^ 63 ≤ size) (most : size < 2 ^ 64) :
    size.log2 = 63 := by
  have positive : size ≠ 0 := by omega
  exact (Nat.log2_eq_iff positive).mpr ⟨least, most⟩

/-- Such an integer becomes a finite number, and none is nearer to it. -/
theorem narrowed_nearest {value : Int} (exact : isExact value = true)
    (wide : Value.isInteger value = false) :
    (Binary64.ofInt value).isFinite = true ∧
      ∀ x : Binary64, |(Binary64.ofInt value).value - value| ≤ |x.value - value| := by
  obtain ⟨least, most⟩ := exact_not_integer_iff.mp ⟨exact, wide⟩
  obtain ⟨size, rfl⟩ := Int.eq_ofNat_of_zero_le (show 0 ≤ value by omega)
  have log : size.log2 = 63 := log2_of_wide (by omega) (by omega)
  have long : 52 ≤ size.log2 := by omega
  have bounded : size.log2 < 1023 := by omega
  exact ⟨(Binary64.value_ofInt_long long bounded).1, Binary64.ofInt_nearest long bounded⟩

/-! ## What stays -/

theorem narrowed_child {inner outer : Json} (child : Child inner outer)
    (same : outer.narrowed = outer) : inner.narrowed = inner := by
  cases child with
  | @item items _ listed =>
    rw [narrowed, Json.array.injEq] at same
    induction items with
    | nil => cases listed
    | cons first rest ih =>
      rw [narrowedItems, List.cons.injEq] at same
      cases List.mem_cons.mp listed with
      | inl here => exact here ▸ same.1
      | inr later => exact ih later same.2
  | @member members entry listed =>
    rw [narrowed, Json.object.injEq] at same
    induction members with
    | nil => cases listed
    | cons first rest ih =>
      rw [narrowedMembers, List.cons.injEq, Prod.mk.injEq] at same
      cases List.mem_cons.mp listed with
      | inl here => exact here ▸ same.1.2
      | inr later => exact ih later same.2

mutual
theorem narrowed_same : (json : Json) →
    (∀ value, ReflTransGen Child (.integer value) json → Value.isInteger value = true) →
      json.narrowed = json
  | .integer value, whole => by rw [narrowed, if_pos (whole value .refl)]
  | .array items, whole => by
    rw [narrowed, narrowedItems_same items fun item listed value inside =>
      whole value (inside.tail (.item listed))]
  | .object members, whole => by
    rw [narrowed, narrowedMembers_same members fun entry listed value inside =>
      whole value (inside.tail (.member listed))]
  | .null, _ => rfl
  | .bool _, _ => rfl
  | .float _, _ => rfl
  | .string _, _ => rfl

theorem narrowedItems_same : (items : List Json) →
    (∀ item ∈ items, ∀ value, ReflTransGen Child (.integer value) item →
      Value.isInteger value = true) → narrowedItems items = items
  | [], _ => rfl
  | item :: rest, whole => by
    rw [narrowedItems, narrowed_same item (whole item List.mem_cons_self),
      narrowedItems_same rest fun other listed => whole other (List.mem_cons_of_mem _ listed)]

theorem narrowedMembers_same : (members : List (String × Json)) →
    (∀ entry ∈ members, ∀ value, ReflTransGen Child (.integer value) entry.2 →
      Value.isInteger value = true) → narrowedMembers members = members
  | [], _ => rfl
  | (name, value) :: rest, whole => by
    rw [narrowedMembers, narrowed_same value (whole (name, value) List.mem_cons_self),
      narrowedMembers_same rest fun other listed => whole other (List.mem_cons_of_mem _ listed)]
end

/-- A document stays the same exactly if all integers in it have 64 bits. -/
theorem narrowed_eq_iff {json : Json} :
    json.narrowed = json ↔
      ∀ value, ReflTransGen Child (.integer value) json → Value.isInteger value = true := by
  refine ⟨fun same value inside => ?_, narrowed_same json⟩
  -- What stays the same does so down to its parts.
  have within : (Json.integer value).narrowed = .integer value := by
    induction inside with
    | refl => exact same
    | tail _ child ih => exact ih (narrowed_child child same)
  by_contra wide
  rw [narrowed, if_neg wide] at within
  cases within

end Json

/-! ## Lifting and writing -/

namespace Value

open Json (Held)

mutual
theorem relift_held : (json : Json) → json.Held → relift json = .ok json.narrowed
  | .integer value, held => by
    rw [relift, Json.narrowed]
    by_cases whole : isInteger value = true
    · rw [if_pos whole, if_pos whole]
    · -- Only finite numbers can be written.
      have finite := (Json.narrowed_nearest (held.exact value .refl) (by simpa using whole)).1
      rw [if_neg whole, if_neg whole, numberToJson, if_pos finite]
  | .float x, held => by
    rw [relift, numberToJson, if_pos (held.finite x .refl)]
    rfl
  | .array items, held => by
    rw [relift, reliftItems_held 0 items fun item listed => Json.Child.held (.item listed) held]
    rfl
  | .object members, held => by
    -- No key comes twice, so no member replaces another when they are put together again.
    have distinct : Fields.Distinct (Json.narrowedMembers members) := by
      rw [Fields.Distinct, Json.names_narrowedMembers]
      exact Json.keyed_distinct held.keyed
    rw [relift, reliftMembers_held members fun entry listed =>
      Json.Child.held (.member listed) held]
    exact congrArg (Except.ok ∘ Json.object) (Fields.ofList_of_distinct distinct)
  | .null, _ => rfl
  | .bool _, _ => rfl
  | .string _, _ => rfl

theorem reliftItems_held (index : Nat) : (items : List Json) → (∀ item ∈ items, item.Held) →
    reliftItems index items = .ok (Json.narrowedItems items)
  | [], _ => rfl
  | item :: rest, held => by
    rw [reliftItems, relift_held item (held item List.mem_cons_self),
      reliftItems_held (index + 1) rest fun other listed =>
        held other (List.mem_cons_of_mem _ listed)]
    rfl

theorem reliftMembers_held : (members : List (String × Json)) →
    (∀ entry ∈ members, entry.2.Held) →
      reliftMembers members = .ok (Json.narrowedMembers members)
  | [], _ => rfl
  | (name, value) :: rest, held => by
    rw [reliftMembers, relift_held value (held (name, value) List.mem_cons_self),
      reliftMembers_held rest fun other listed => held other (List.mem_cons_of_mem _ listed)]
    rfl
end

/-- Lifting a document and writing it again narrows it, and does nothing else. -/
theorem toJson_ofJson_held {json : Json} (held : json.Held) (keyOf : KeyOf) :
    (ofJson json).toJson keyOf = .ok json.narrowed := by
  rw [toJson_ofJson, relift_held json held]

end Value

end TypedSchema
