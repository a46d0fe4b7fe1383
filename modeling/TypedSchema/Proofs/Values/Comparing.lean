import Mathlib.Data.List.Perm.Subperm
import TypedSchema.Decode.Dispatch
import TypedSchema.Proofs.Lists
import TypedSchema.Proofs.Values.Exact
import TypedSchema.Proofs.Values.Nested
import TypedSchema.Proofs.Values.Rereading

/-!
Equality of documents by value. Numbers are equal if they have one exact value, however they are
written. The test for the constants of a condition decides this, except where rounding makes one
number of two, or a number that is held as an integer meets one that is not below the top.
-/

namespace TypedSchema

namespace Json

/-- A document as it is read: no object has a key twice, and every number is finite. -/
structure Proper (json : Json) : Prop where
  keyed : json.keyed = true
  finite : ∀ x, Relation.ReflTransGen Child (.float x) json → x.isFinite = true

theorem Child.proper {inner outer : Json} (child : Child inner outer) (proper : outer.Proper) :
    inner.Proper :=
  ⟨child.keyed proper.keyed, fun x inside => proper.finite x (inside.tail child)⟩

theorem Proper.within {inner outer : Json} (proper : outer.Proper)
    (inside : Relation.ReflTransGen Child inner outer) : inner.Proper := by
  induction inside with
  | refl => exact proper
  | tail _ child ih => exact ih (child.proper proper)

/-- A document that holds no other has no number inside but itself. -/
theorem Proper.single {json : Json} (childless : ∀ inner, ¬ Child inner json)
    (finite : ∀ x, json = .float x → x.isFinite = true) : json.Proper := by
  refine ⟨?_, fun x inside => ?_⟩
  · cases json with
    | array items =>
      cases items with
      | nil => rfl
      | cons item => exact absurd (.item List.mem_cons_self) (childless item)
    | object members =>
      cases members with
      | nil => rfl
      | cons entry => exact absurd (.member List.mem_cons_self) (childless entry.2)
    | _ => rfl
  · cases inside with
    | refl => exact finite x rfl
    | tail _ child => exact absurd child (childless _)

theorem Proper.array {items : List Json} (each : ∀ item ∈ items, item.Proper) :
    (Json.array items).Proper := by
  refine ⟨keyed_array_iff.mpr fun item listed => (each item listed).keyed, fun x inside => ?_⟩
  cases inside with
  | tail inner child =>
    cases child with
    | item listed => exact (each _ listed).finite x inner

theorem Proper.object {members : Fields Json} (distinct : Fields.Distinct members)
    (each : ∀ entry ∈ members, entry.2.Proper) : (Json.object members).Proper := by
  refine ⟨keyed_object_iff.mpr ⟨distinct, fun entry listed => (each entry listed).keyed⟩,
    fun x inside => ?_⟩
  cases inside with
  | tail inner child =>
    cases child with
    | member listed => exact (each _ listed).finite x inner

/-! ## Numbers -/

/-- The exact value of a number. -/
def number? : Json → Option ℚ
  | .integer value => some value
  | .float x => some x.value
  | _ => none

/-- The double precision number that a number becomes. -/
def rounded? : Json → Option Binary64
  | .integer value => some (.ofInt value)
  | .float x => some x
  | _ => none

/-- Whether a number is held as an integer, which has 64 bits. -/
def isWhole : Json → Bool
  | .integer value => Value.isInteger value
  | _ => false

/-! ## Equality by value -/

/-- Two documents are one value. Objects have the same keys in any order. -/
inductive SameValue : Json → Json → Prop where
  | null : SameValue .null .null
  | bool (value : Bool) : SameValue (.bool value) (.bool value)
  | string (value : String) : SameValue (.string value) (.string value)
  | number {x y : Json} {value : ℚ} (left : x.number? = some value)
    (right : y.number? = some value) : SameValue x y
  | array {items others : List Json} (each : List.Forall₂ SameValue items others) :
    SameValue (.array items) (.array others)
  | object {members others : Fields Json}
    (each : ∀ name, Option.Rel SameValue (Fields.get? members name) (Fields.get? others name)) :
    SameValue (.object members) (.object others)

/-- Two parts stand at one place of two documents. -/
inductive Facing : Json → Json → Json → Json → Prop where
  | self (x y : Json) : Facing x y x y
  | item {items others : List Json} {item other x y : Json}
    (listed : (item, other) ∈ items.zip others) (inner : Facing item other x y) :
    Facing (.array items) (.array others) x y
  | member {members others : Fields Json} {name : String} {member other x y : Json}
    (left : Fields.get? members name = some member) (right : Fields.get? others name = some other)
    (inner : Facing member other x y) : Facing (.object members) (.object others) x y

/-- Rounding does not make one number of two that stand at one place. -/
def Told (value constant : Json) : Prop :=
  ∀ x y, Facing value constant x y → (x.isWhole && y.isWhole) = false →
    ∀ r s, x.rounded? = some r → y.rounded? = some s → r.equal s = true → x.number? = y.number?

/-- No number held as an integer stands where the other document has its value in another form. -/
def Formed (value constant : Json) : Prop :=
  ∀ x y, Facing value constant x y → x.isWhole ≠ y.isWhole → x.number? ≠ y.number?

variable {x y : Json} {p q : ℚ}

theorem sameValue_numbers (left : x.number? = some p) (right : y.number? = some q) :
    SameValue x y ↔ p = q := by
  constructor
  · intro same
    cases same with
    | number held other =>
      rw [left, Option.some_inj] at held
      rw [right, Option.some_inj] at other
      rw [held, other]
    | _ => cases left
  · rintro rfl
    exact .number left right

/-- A number is held as an integer or as what it is rounded to. -/
theorem held_number (number : x.number? = some p) :
    (∃ value : Int, x.isWhole = true ∧ p = value ∧ Value.ofJson x = .integer (Int64.ofInt value) ∧
      Value.isInteger value = true ∧ x.rounded? = some (.ofInt value)) ∨
    ∃ r, x.isWhole = false ∧ x.rounded? = some r ∧ Value.ofJson x = .number r := by
  cases x with
  | integer value =>
    cases bounded : Value.isInteger value with
    | true =>
      refine .inl ⟨value, bounded, (Option.some_inj.mp number).symm, ?_, bounded, rfl⟩
      rw [Value.ofJson, Value.ofInt, if_pos bounded]
    | false =>
      refine .inr ⟨.ofInt value, bounded, rfl, ?_⟩
      rw [Value.ofJson, Value.ofInt, bounded]
      rfl
  | float r => exact .inr ⟨r, rfl, rfl, rfl⟩
  | _ => cases number

theorem rounded_of_number (number : x.number? = some p) : ∃ r, x.rounded? = some r := by
  cases x with
  | integer | float => exact ⟨_, rfl⟩
  | _ => cases number

/-- Numbers of one value become one number. -/
theorem rounded_of_value (left : x.Proper) (right : y.Proper) (held : x.number? = some p)
    (same : y.number? = some p) {r s : Binary64} (leftRounded : x.rounded? = some r)
    (rightRounded : y.rounded? = some s) : r.equal s = true := by
  cases x with
  | integer value =>
    cases leftRounded
    cases Option.some_inj.mp held
    cases y with
    | integer other =>
      cases rightRounded
      rw [Int.cast_inj.mp (Option.some_inj.mp same)]
      exact Binary64.equal_self (Binary64.not_isNaN_ofInt value)
    | float s =>
      cases rightRounded
      exact Binary64.equal_ofInt_of_value (right.finite s .refl) (Option.some_inj.mp same)
    | _ => cases rightRounded
  | float r =>
    cases leftRounded
    cases Option.some_inj.mp held
    have finite := left.finite r .refl
    cases y with
    | integer other =>
      cases rightRounded
      rw [Binary64.equal_comm]
      exact Binary64.equal_ofInt_of_value finite (Option.some_inj.mp same).symm
    | float s =>
      cases rightRounded
      exact (Binary64.equal_iff_value finite (right.finite s .refl)).mpr
        (Option.some_inj.mp same).symm
    | _ => cases rightRounded
  | _ => cases leftRounded

/-- Two numbers that rounding does not confuse become one number if they have one value. -/
theorem rounded_iff (left : x.Proper) (right : y.Proper) (held : x.number? = some p)
    (other : y.number? = some q) {r s : Binary64} (leftRounded : x.rounded? = some r)
    (rightRounded : y.rounded? = some s) (told : r.equal s = true → x.number? = y.number?) :
    r.equal s = true ↔ p = q := by
  constructor
  · intro same
    exact Option.some_inj.mp (held.symm.trans ((told same).trans other))
  · rintro rfl
    exact rounded_of_value left right held other leftRounded rightRounded

/-- The test for a constant compares two numbers as rounded, unless both are integers. -/
theorem sameConstant_rounded (held : x.number? = some p) (other : y.number? = some q)
    (apart : (x.isWhole && y.isWhole) = false) {r s : Binary64} (leftRounded : x.rounded? = some r)
    (rightRounded : y.rounded? = some s) :
    Decode.sameConstant (Value.ofJson x) (Value.ofJson y) = r.equal s := by
  rcases held_number held with ⟨value, whole, -, lifted, bounded, rounded⟩ |
    ⟨left, whole, rounded, lifted⟩ <;>
    rcases held_number other with ⟨again, wholeY, -, liftedY, boundedY, roundedY⟩ |
      ⟨right, wholeY, roundedY, liftedY⟩ <;>
    cases leftRounded.symm.trans rounded <;> cases rightRounded.symm.trans roundedY <;>
    rw [lifted, liftedY]
  · rw [whole, wholeY] at apart
    cases apart
  · rw [Decode.sameConstant, Value.toInt_ofInt bounded]
  · rw [Decode.sameConstant, Value.toInt_ofInt boundedY, Binary64.equal_comm]
  · rfl

/-- The test for a constant compares two numbers by value. -/
theorem sameConstant_numbers (left : x.Proper) (right : y.Proper) (held : x.number? = some p)
    (other : y.number? = some q) (told : Told x y) :
    Decode.sameConstant (Value.ofJson x) (Value.ofJson y) = true ↔ p = q := by
  cases apart : x.isWhole && y.isWhole with
  | false =>
    obtain ⟨r, rounded⟩ := rounded_of_number held
    obtain ⟨s, roundedY⟩ := rounded_of_number other
    rw [sameConstant_rounded held other apart rounded roundedY]
    exact rounded_iff left right held other rounded roundedY
      (told x y (.self x y) apart r s rounded roundedY)
  | true =>
    obtain ⟨whole, wholeY⟩ := Bool.and_eq_true_iff.mp apart
    rcases held_number held with ⟨value, -, rfl, lifted, bounded, -⟩ | ⟨r, none, -⟩
    · rcases held_number other with ⟨again, -, rfl, liftedY, boundedY, -⟩ | ⟨s, none, -⟩
      · rw [lifted, liftedY, Int.cast_inj]
        show decide (Int64.ofInt value = Int64.ofInt again) = true ↔ value = again
        rw [decide_eq_true_iff, ← Int64.toInt_inj, Value.toInt_ofInt bounded,
          Value.toInt_ofInt boundedY]
      · cases none.symm.trans wholeY
    · cases none.symm.trans whole

end Json

/-! ## Equality of values -/

/-- Two tables have the same names with related values if they are of one size and every value has
a related one of its name. -/
theorem Fields.matched_iff {α β : Type} {related : α → β → Prop} {fields : Fields α}
    {others : Fields β} (distinct : Distinct fields) (apart : Distinct others) :
    (fields.length = others.length ∧ ∀ entry ∈ fields, ∃ other,
      get? others entry.1 = some other ∧ related entry.2 other) ↔
      ∀ name, Option.Rel related (get? fields name) (get? others name) := by
  constructor
  · rintro ⟨size, each⟩ name
    cases found : get? fields name with
    | some value =>
      obtain ⟨other, present, holds⟩ := each _ (mem_of_get? found)
      rw [present]
      exact .some holds
    | none =>
      -- as many names, and no name twice, so the others have no name of their own
      have within : names fields ⊆ names others := fun held listed => by
        obtain ⟨entry, member, rfl⟩ := List.mem_map.mp listed
        obtain ⟨other, present, -⟩ := each entry member
        exact mem_names_iff.mpr ⟨other, present⟩
      have all : (names others).length ≤ (names fields).length := by
        simp only [names, List.length_map]
        omega
      have permuted := (List.subperm_of_subset distinct within).perm_of_length_le all
      have absent := get?_eq_none_iff.mp found
      rw [get?_eq_none_iff.mpr fun listed => absent (permuted.mem_iff.mpr listed)]
      exact .none
  · intro each
    have alike : ∀ name, name ∈ names fields ↔ name ∈ names others := fun name => by
      have related := each name
      rw [mem_names_iff, mem_names_iff]
      generalize get? fields name = left, get? others name = right at related
      cases related <;> simp
    have size := ((List.perm_ext_iff_of_nodup distinct apart).mpr alike).length_eq
    refine ⟨by simpa [names] using size, fun entry member => ?_⟩
    have held := each entry.1
    rw [get?_of_mem distinct member] at held
    generalize get? others entry.1 = found at held ⊢
    cases held with
    | some holds => exact ⟨_, rfl, holds⟩

namespace Value

theorem equalItems_iff {items others : List Value} :
    equalItems items others = true ↔ List.Forall₂ (fun x y => equal x y = true) items others := by
  induction items generalizing others with
  | nil => cases others <;> simp [equalItems]
  | cons item rest ih => cases others <;> simp [equalItems, ih]

theorem equalEntries_iff {entries others : Fields Value} :
    equalEntries entries others = true ↔ ∀ entry ∈ entries, ∃ other,
      Fields.get? others entry.1 = some other ∧ equal entry.2 other = true := by
  induction entries with
  | nil => simp [equalEntries]
  | cons entry rest ih =>
    rw [equalEntries, Bool.and_eq_true, ih, List.forall_mem_cons]
    refine and_congr_left fun _ => ?_
    cases Fields.get? others entry.1 <;> simp

end Value

namespace Json

variable {x y : Json} {p q : ℚ}

theorem Told.item {items others : List Json} (told : Told (.array items) (.array others))
    {item other : Json} (listed : (item, other) ∈ items.zip others) : Told item other :=
  fun x y facing => told x y (.item listed facing)

theorem Formed.item {items others : List Json} (formed : Formed (.array items) (.array others))
    {item other : Json} (listed : (item, other) ∈ items.zip others) : Formed item other :=
  fun x y facing => formed x y (.item listed facing)

theorem Told.member {members others : Fields Json} (told : Told (.object members) (.object others))
    {name : String} {member other : Json} (left : Fields.get? members name = some member)
    (right : Fields.get? others name = some other) : Told member other :=
  fun x y facing => told x y (.member left right facing)

theorem Formed.member {members others : Fields Json}
    (formed : Formed (.object members) (.object others)) {name : String} {member other : Json}
    (left : Fields.get? members name = some member)
    (right : Fields.get? others name = some other) : Formed member other :=
  fun x y facing => formed x y (.member left right facing)

/-- Below the top numbers of one form are compared as at the top, and others never agree. -/
theorem equal_numbers (left : x.Proper) (right : y.Proper) (held : x.number? = some p)
    (other : y.number? = some q) (told : Told x y) (formed : Formed x y) :
    (Value.ofJson x).equal (Value.ofJson y) = true ↔ p = q := by
  have values := sameConstant_numbers left right held other told
  have apart := formed x y (.self x y)
  rw [held, other, Ne, Ne, Option.some_inj] at apart
  rcases held_number held with ⟨value, wholeX, -, lifted, -⟩ | ⟨r, wholeX, -, lifted⟩ <;>
    rcases held_number other with ⟨again, wholeY, -, liftedY, -⟩ | ⟨s, wholeY, -, liftedY⟩ <;>
    rw [lifted, liftedY] at values ⊢ <;> rw [wholeX, wholeY] at apart
  · exact values
  · exact iff_of_false Bool.false_ne_true (apart Bool.noConfusion)
  · exact iff_of_false Bool.false_ne_true (apart Bool.noConfusion)
  · exact values

/-- A number is equal to nothing that is no number. -/
theorem not_equal_number (held : x.number? = some p) (other : y.number? = none) :
    (Value.ofJson x).equal (Value.ofJson y) = false ∧
      (Value.ofJson y).equal (Value.ofJson x) = false := by
  rcases held_number held with ⟨value, -, -, lifted, -⟩ | ⟨r, -, -, lifted⟩ <;> rw [lifted] <;>
    cases y with
    | integer | float => cases other
    | _ => exact ⟨rfl, rfl⟩

theorem SameValue.numbers (same : SameValue x y) : x.number? = y.number? := by
  cases same with
  | number left right => rw [left, right]
  | _ => rfl

theorem equal_arrays {items others : List Json}
    (each : ∀ item other, (item, other) ∈ items.zip others →
      ((Value.ofJson item).equal (Value.ofJson other) = true ↔ SameValue item other)) :
    (Value.ofJson (.array items)).equal (Value.ofJson (.array others)) = true ↔
      SameValue (.array items) (.array others) := by
  rw [Value.ofJson, Value.ofJson, Value.equal, Value.equalItems_iff, Value.ofJsonItems_eq,
    Value.ofJsonItems_eq, List.forall₂_map_left_iff, List.forall₂_map_right_iff]
  constructor
  · intro equal
    exact .array ((Lists.zipped equal).imp fun item other held =>
      (each item other held.1).mp held.2)
  · intro same
    cases same with
    | number left => cases left
    | array same =>
      exact (Lists.zipped same).imp fun item other held => (each item other held.1).mpr held.2

theorem equal_objects {members others : Fields Json} (distinct : Fields.Distinct members)
    (apart : Fields.Distinct others)
    (each : ∀ name member other, Fields.get? members name = some member →
      Fields.get? others name = some other →
      ((Value.ofJson member).equal (Value.ofJson other) = true ↔ SameValue member other)) :
    (Value.ofJson (.object members)).equal (Value.ofJson (.object others)) = true ↔
      SameValue (.object members) (.object others) := by
  rw [Fields.Distinct, ← Value.names_ofJsonMembers] at distinct apart
  rw [Value.ofJson, Value.ofJson, Value.equal, Bool.and_eq_true, decide_eq_true_iff,
    Value.equalEntries_iff]
  refine (@Fields.matched_iff _ _ (fun x y => Value.equal x y = true) _ _ distinct apart).trans ?_
  have related : ∀ name, Option.Rel (fun x y => Value.equal x y = true)
      (Fields.get? (Value.ofJsonMembers members) name)
      (Fields.get? (Value.ofJsonMembers others) name) ↔
      Option.Rel SameValue (Fields.get? members name) (Fields.get? others name) := fun name => by
    rw [Value.ofJsonMembers_eq, Value.ofJsonMembers_eq, Fields.get?_mapValues,
      Fields.get?_mapValues]
    have same := each name
    generalize Fields.get? members name = here, Fields.get? others name = there at same ⊢
    cases here <;> cases there <;> simp [same]
  rw [forall_congr' related]
  constructor
  · exact .object
  · intro same
    cases same with
    | number left => cases left
    | object same => exact same

/-- Lifted documents are equal if the documents are one value. -/
theorem equal_ofJson (x y : Json) (left : x.Proper) (right : y.Proper) (told : Told x y)
    (formed : Formed x y) :
    (Value.ofJson x).equal (Value.ofJson y) = true ↔ SameValue x y := by
  have unlike (apart : x.number? ≠ y.number?) : ¬ SameValue x y := fun same => apart same.numbers
  cases held : x.number? with
  | some p =>
    cases other : y.number? with
    | some q =>
      rw [equal_numbers left right held other told formed, sameValue_numbers held other]
    | none =>
      rw [(not_equal_number held other).1]
      exact iff_of_false Bool.false_ne_true (unlike (by simp [held, other]))
  | none =>
    cases other : y.number? with
    | some q =>
      rw [(not_equal_number other held).2]
      exact iff_of_false Bool.false_ne_true (unlike (by simp [held, other]))
    | none =>
      cases x with
      | integer | float => cases held
      | null =>
        cases y with
        | integer | float => cases other
        | null => exact iff_of_true rfl .null
        | _ => exact iff_of_false Bool.false_ne_true fun same => by cases same; contradiction
      | bool value =>
        cases y with
        | integer | float => cases other
        | bool again =>
          refine decide_eq_true_iff.trans ⟨fun same => same ▸ .bool value, fun same => ?_⟩
          cases same with
          | number left => cases left
          | bool => rfl
        | _ => exact iff_of_false Bool.false_ne_true fun same => by cases same; contradiction
      | string value =>
        cases y with
        | integer | float => cases other
        | string again =>
          refine decide_eq_true_iff.trans ⟨fun same => same ▸ .string value, fun same => ?_⟩
          cases same with
          | number left => cases left
          | string => rfl
        | _ => exact iff_of_false Bool.false_ne_true fun same => by cases same; contradiction
      | array items =>
        cases y with
        | integer | float => cases other
        | array others =>
          refine equal_arrays fun item other listed => ?_
          have child : Child item (.array items) := .item (List.of_mem_zip listed).1
          have smaller := child.depth_lt
          exact equal_ofJson item other (child.proper left)
            (Child.proper (.item (List.of_mem_zip listed).2) right) (told.item listed)
            (formed.item listed)
        | _ => exact iff_of_false Bool.false_ne_true fun same => by cases same; contradiction
      | object members =>
        cases y with
        | integer | float => cases other
        | object others =>
          refine equal_objects (keyed_distinct left.keyed) (keyed_distinct right.keyed)
            fun name member other here there => ?_
          have child : Child member (.object members) := .member (Fields.mem_of_get? here)
          have smaller := child.depth_lt
          exact equal_ofJson member other (child.proper left)
            (Child.proper (.member (Fields.mem_of_get? there)) right) (told.member here there)
            (formed.member here there)
        | _ => exact iff_of_false Bool.false_ne_true fun same => by cases same; contradiction
termination_by x.depth

/-! ## The test for a constant -/

/-- Two documents that the test for a constant compares by value. At the top, numbers may have two
forms. -/
structure Comparable (value constant : Json) : Prop where
  told : Told value constant
  formed : value.number? = none → Formed value constant

theorem sameConstant_of_no_number (none : x.number? = none ∨ y.number? = none) :
    Decode.sameConstant (Value.ofJson x) (Value.ofJson y) =
      (Value.ofJson x).equal (Value.ofJson y) := by
  cases none with
  | inl left =>
    cases x with
    | integer | float => cases left
    | _ => rfl
  | inr right =>
    cases y with
    | integer | float => cases right
    | _ => cases Value.ofJson x <;> rfl

/-- Comparable documents pass the test for a constant if they are one value. -/
theorem sameConstant_ofJson (left : x.Proper) (right : y.Proper) (comparable : x.Comparable y) :
    Decode.sameConstant (Value.ofJson x) (Value.ofJson y) = true ↔ SameValue x y := by
  cases held : x.number? with
  | none =>
    rw [sameConstant_of_no_number (.inl held)]
    exact equal_ofJson x y left right comparable.told (comparable.formed held)
  | some p =>
    cases other : y.number? with
    | some q =>
      rw [sameConstant_numbers left right held other comparable.told,
        sameValue_numbers held other]
    | none =>
      rw [sameConstant_of_no_number (.inr other), (not_equal_number held other).1]
      refine iff_of_false Bool.false_ne_true fun same => ?_
      cases held.symm.trans (same.numbers.trans other)

/-- A document that holds no other faces nothing but the document it is compared with. -/
theorem Facing.of_childless (childless : ∀ inner, ¬ Child inner x) {inner other : Json}
    (facing : Facing x y inner other) : inner = x ∧ other = y := by
  cases facing with
  | self => exact ⟨rfl, rfl⟩
  | item listed => exact absurd (.item (List.of_mem_zip listed).1) (childless _)
  | member left => exact absurd (.member (Fields.mem_of_get? left)) (childless _)

theorem Comparable.single (childless : ∀ inner, ¬ Child inner x)
    (told : (x.isWhole && y.isWhole) = false → ∀ r s, x.rounded? = some r → y.rounded? = some s →
      r.equal s = true → x.number? = y.number?)
    (formed : x.number? = none → x.isWhole ≠ y.isWhole → x.number? ≠ y.number?) :
    x.Comparable y := by
  refine ⟨fun inner other facing => ?_, fun none inner other facing => ?_⟩ <;>
    obtain ⟨rfl, rfl⟩ := facing.of_childless childless
  · exact told
  · exact formed none

theorem childless_of_number (number : x.number? = some p) (inner : Json) : ¬ Child inner x := by
  rintro ⟨⟩ <;> cases number

/-- For two numbers nothing less will do: the test compares them by value only if they are
comparable. -/
theorem comparable_iff (left : x.Proper) (right : y.Proper) (held : x.number? = some p)
    (other : y.number? = some q) :
    x.Comparable y ↔
      (Decode.sameConstant (Value.ofJson x) (Value.ofJson y) = true ↔ SameValue x y) := by
  refine ⟨sameConstant_ofJson left right, fun exact => ?_⟩
  refine .single (childless_of_number held) (fun apart r s rounded roundedY same => ?_)
    fun none => ?_
  · rw [sameConstant_rounded held other apart rounded roundedY, sameValue_numbers held other]
      at exact
    rw [held, other, exact.mp same]
  · cases held.symm.trans none

theorem Facing.within {value constant : Json} (facing : Facing value constant x y) :
    Relation.ReflTransGen Child x value ∧ Relation.ReflTransGen Child y constant := by
  induction facing with
  | self => exact ⟨.refl, .refl⟩
  | item listed _ ih =>
    exact ⟨ih.1.tail (.item (List.of_mem_zip listed).1),
      ih.2.tail (.item (List.of_mem_zip listed).2)⟩
  | member left right _ ih =>
    exact ⟨ih.1.tail (.member (Fields.mem_of_get? left)),
      ih.2.tail (.member (Fields.mem_of_get? right))⟩

/-- All integers of a document are numbers without a change, as those of 53 binary digits are. -/
def Short (json : Json) : Prop :=
  ∀ value, Relation.ReflTransGen Child (.integer value) json → Binary64.Short value.natAbs

theorem rounded_exact (proper : x.Proper) (short : x.Short) {r : Binary64}
    (rounded : x.rounded? = some r) : r.isFinite = true ∧ x.number? = some r.value := by
  cases x with
  | integer value =>
    cases rounded
    obtain ⟨finite, exact⟩ := Binary64.value_ofInt (short value .refl)
    exact ⟨finite, congrArg some exact.symm⟩
  | float r =>
    cases rounded
    exact ⟨proper.finite r .refl, rfl⟩
  | _ => cases rounded

/-- Where integers are short, rounding confuses no numbers. -/
theorem Told.of_short {value constant : Json} (left : value.Proper) (right : constant.Proper)
    (leftShort : value.Short) (rightShort : constant.Short) : Told value constant := by
  intro x y facing _ r s leftRounded rightRounded same
  obtain ⟨here, there⟩ := facing.within
  obtain ⟨finite, held⟩ := rounded_exact (left.within here)
    (fun held inside => leftShort held (inside.trans here)) leftRounded
  obtain ⟨also, other⟩ := rounded_exact (right.within there)
    (fun held inside => rightShort held (inside.trans there)) rightRounded
  rw [held, other, (Binary64.equal_iff_value finite also).mp same]

end Json

end TypedSchema
