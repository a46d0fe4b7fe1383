import TypedSchema.Json.Reader
import TypedSchema.Proofs.Values.Narrowing

/-!
What is read is held. No object that a reader gives has a key twice, its integers are exact, and its
numbers are finite.
-/

namespace TypedSchema.Json

/-! ## Held data -/

/-- Whether a value that has no others in it is held. -/
def holdsAlone : Json → Bool
  | .array _ | .object _ => false
  | .integer value => isExact value
  | .float value => value.isFinite
  | _ => true

theorem held_of_alone {json : Json} (alone : json.holdsAlone = true) : json.Held := by
  refine .single (fun _ child => ?_) (fun _ same => ?_) fun _ same => ?_
  · cases child <;> cases alone
  · cases same
    exact alone
  · cases same
    exact alone

theorem Held.array {items : List Json} (each : ∀ item ∈ items, item.Held) :
    (Json.array items).Held := by
  refine ⟨.array fun item listed => (each item listed).toProper, fun value inside => ?_⟩
  cases inside with
  | tail inner child =>
    cases child with
    | item listed => exact (each _ listed).exact value inner

theorem held_empty : (Json.object []).Held :=
  .object List.nodup_nil (List.forall_mem_nil _)

theorem Held.insert {members : Fields Json} (held : (Json.object members).Held) {value : Json}
    (own : value.Held) (name : String) :
    (Json.object (Fields.insert members name value)).Held := by
  refine .object ((keyed_distinct held.keyed).insert name value) fun entry listed => ?_
  rcases Fields.mem_insert listed with rfl | old
  · exact own
  · exact (Child.member old).held held

theorem Held.sublist {members others : Fields Json} (held : (Json.object members).Held)
    (fewer : others.Sublist members) : (Json.object others).Held :=
  .object ((keyed_distinct held.keyed).sublist (fewer.map Prod.fst)) fun _ listed =>
    (Child.member (fewer.subset listed)).held held

namespace Reader

variable {α β : Type}

/-- Whatever the reader gives satisfies the condition. -/
def Gives (holds : α → Prop) (reader : Reader α) : Prop :=
  ∀ cursor result after, reader cursor = .ok (result, after) → holds result

section

variable {holds : α → Prop}

theorem Gives.pure {value : α} (held : holds value) : Gives holds (pure value) := by
  intro cursor result after ran
  cases ran
  exact held

theorem Gives.bind {known : β → Prop} {reader : Reader β} {next : β → Reader α}
    (first : Gives known reader) (rest : ∀ value, known value → Gives holds (next value)) :
    Gives holds (reader >>= next) := by
  intro cursor result after ran
  obtain ⟨⟨value, middle⟩, given, ran⟩ := Outcomes.bind_ok.mp ran
  exact rest value (first _ _ _ given) _ _ _ ran

/-- What comes first does not matter. -/
theorem Gives.after {reader : Reader β} {next : β → Reader α}
    (rest : ∀ value, Gives holds (next value)) : Gives holds (reader >>= next) := by
  have any : Gives (fun _ => True) reader := fun _ _ _ _ => trivial
  exact any.bind fun value _ => rest value

theorem Gives.fail {fault : Fault} : Gives holds (fail fault) := by
  intro cursor result after ran
  cases ran

theorem Gives.failNext {fault : Fault} : Gives holds (failNext fault) := by
  intro cursor result after ran
  cases ran

theorem Gives.along {reader : Reader α} (gives : Gives holds reader) (route : Route) :
    Gives holds (along route reader) :=
  fun cursor result after ran => gives cursor result after (Outcomes.mapError_ok.mp ran)

theorem Gives.ite {condition : Prop} [Decidable condition] {first second : Reader α}
    (yes : condition → Gives holds first) (no : ¬condition → Gives holds second) :
    Gives holds (if condition then first else second) := by
  split
  · exact yes ‹_›
  · exact no ‹_›

end

/-! ## Single values -/

theorem takeDigits_lt (digits : List UInt8) {significand : Nat} (small : significand < 2 ^ 64) :
    (takeDigits significand digits).1 < 2 ^ 64 := by
  induction digits generalizing significand with
  | nil => exact small
  | cons digit rest ih =>
    rw [takeDigits]
    split
    · exact ih ‹_›
    · exact small

theorem finite_held (value : Binary64) : Gives Json.Held (finite value) := by
  unfold finite
  refine .ite (fun finite => .pure (held_of_alone finite)) fun _ => .after fun _ => ?_
  exact .ite (fun _ => .failNext) fun _ => .fail

theorem number_held : Gives Json.Held number := by
  unfold number
  refine .after fun first => ?_
  extract_lets negative rest
  -- `rest` reads what follows, whether a sign was skipped or not.
  have kept : ∀ skipped, Gives Json.Held (rest skipped) := by
    refine fun _ => .after fun whole => .after fun fraction => .after fun exponent => ?_
    have small := takeDigits_lt (fraction.getD []) (takeDigits_lt whole (by decide : 0 < 2 ^ 64))
    dsimp only
    split
    -- An integer that is not exact is read as the float nearest to it. That is finite, since digits
    -- are only taken while the significand fits 64 bits.
    · refine .ite (fun exact => .pure (held_of_alone ?_)) fun _ => .pure (held_of_alone ?_)
      · exact (Bool.and_eq_true _ _ ▸ exact).1
      · exact Binary64.isFinite_ofRatio small _
    · exact finite_held _
    · exact finite_held _
    · exact .pure (held_of_alone (Binary64.isFinite_zero _))
  exact .ite (fun _ => .after kept) fun _ => kept ()

theorem scalar_held (first : UInt8) : Gives Json.Held (scalar first) := by
  unfold scalar
  refine .ite (fun _ => .after fun _ => .after fun _ => .pure (held_of_alone rfl)) fun _ => ?_
  refine .ite (fun _ => .after fun _ => .after fun _ => .pure (held_of_alone rfl)) fun _ => ?_
  refine .ite (fun _ => .after fun _ => .after fun _ => .pure (held_of_alone rfl)) fun _ => ?_
  refine .ite (fun _ => .after fun _ => .after fun _ => .pure (held_of_alone rfl)) fun _ => ?_
  exact .ite (fun _ => number_held) fun _ => .failNext

/-! ## Lists and objects -/

section

variable {route : Route}

theorem items_held {item : Route → Reader Json} (each : ∀ route, Gives Json.Held (item route))
    {steps index : Nat} :
    Gives (fun items => ∀ item ∈ items, item.Held) (items item route steps index) := by
  induction steps generalizing index with
  | zero => exact .fail
  | succ steps ih =>
    unfold items
    refine .after fun more => .ite (fun _ => ?_) fun _ => ?_
    · refine .bind ((each _).along _) fun value first => .bind ih fun rest later => .pure ?_
      exact List.forall_mem_cons.mpr ⟨first, later⟩
    · exact .after fun _ => .pure (List.forall_mem_nil _)

theorem members_held {member : Route → Reader Json}
    (each : ∀ route, Gives Json.Held (member route)) {steps : Nat} {first : Bool}
    {sofar : Fields Json} (held : (Json.object sofar).Held) :
    Gives (fun members => (Json.object members).Held) (members member route steps first sofar) := by
  induction steps generalizing first sofar with
  | zero => exact .fail
  | succ steps ih =>
    unfold members
    refine .after fun name => ?_
    cases name with
    | none => exact .after fun _ => .pure held
    | some name =>
      exact .after fun _ => .bind ((each _).along _) fun value own => ih (held.insert own name)

theorem value_held (nesting : Nat) (route : Route) : Gives Json.Held (value nesting route) := by
  -- On the levels that are left, of which a list or an object takes one.
  induction nesting generalizing route with
  | zero =>
    unfold value
    refine .after fun first => ?_
    cases first with
    | none => exact .failNext
    | some first => exact .ite (fun _ => .failNext) fun _ => scalar_held first
  | succ nesting ih =>
    unfold value
    refine .after fun first => ?_
    cases first with
    | none => exact .failNext
    | some first =>
      refine .ite (fun _ => .after fun _ => ?_) fun _ => scalar_held first
      refine .ite (fun _ => .after fun _ => ?_) fun _ => .after fun _ => ?_
      · exact .bind (items_held ih) fun _ each => .pure (.array each)
      · exact .bind (members_held ih held_empty) fun _ held => .pure held

end

end Reader

/-- Whatever a text holds is held. -/
theorem read_held {nesting : Nat} {cursor : Cursor} {json : Json}
    (given : read nesting cursor = .ok json) : json.Held := by
  obtain ⟨⟨value, after⟩, first, rest⟩ := Outcomes.bind_ok.mp given
  obtain ⟨_, _, last⟩ := Outcomes.bind_ok.mp rest
  cases last
  exact Reader.value_held nesting [] cursor _ after first

end TypedSchema.Json
