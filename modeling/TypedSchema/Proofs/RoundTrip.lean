import TypedSchema.Proofs.Compile.Compiled
import TypedSchema.Proofs.Decode.Returning

/-!
Round trips. What a document was decoded to is written as a document that decodes to the same
object, provided that nothing on the way loses what it was made from.
-/

namespace TypedSchema

namespace Registry

variable {registry : Registry}

theorem names_names (registry : Registry) :
    Fields.names registry.names = Fields.names registry.composites :=
  Fields.names_mapValues Composite.special registry.composites

/-- Whatever was decoded with a registry, every cast in it can rely on its special names. -/
theorem setting (wellFormed : registry.WellFormed) (descends : registry.Descends)
    {names : NameTable} (reached : registry.Reachable names) : Decode.Setting registry names where
  wellFormed := wellFormed
  descends := descends
  sound := wellFormed.reachable_sound reached
  covered := fun name member => reached.grows.covered name (registry.names_names ▸ member)

end Registry

namespace Document

/-- Decoding returns. Let a document be decoded as an object of a composite type, with a caster that
can be undone: no polymorphs, literals that are ids, and parents that agree on what they share. If
all keys of decoded objects come back from their attributes, and all timestamps and identifiers in
the object from their texts, then what the object is written as is decoded to the very same object,
and the special names stay as they are, so that it is written as the same again. -/
theorem decode_round_trip {document : Document} {registry : Registry}
    (compiled : document.compile = .ok registry)
    {before after : NameTable} (reached : registry.Reachable before) {name : String}
    (invertible : registry.Invertible (.composite name)) (json : Json.Keyed) {result : Value}
    (ran : (registry.decode name (.ofJson json.val)).run before = (.ok result, after))
    (keys : registry.KeysReturn after (.composite name) (.ofJson json.val))
    (texts : result.TextsReturn) {written : Json}
    (encoded : result.toJson (registry.keyOf after) = .ok written) :
    (registry.decode name (.ofJson written)).run after = (.ok result, after) := by
  obtain ⟨json, keyed⟩ := json
  have wellFormed := compile_wellFormed compiled
  have last : registry.Reachable after := by
    have decoded := reached.decoded name (.ofJson json)
    rwa [ran] at decoded
  have setting := registry.setting wellFormed (compile_descends compiled) last
  have passage : Decode.Passage registry after (.composite name) (.ofJson json) result
      (.ofJson written) :=
    ⟨invertible.restorable, Value.ofJson_lifted json keyed, keys,
      fun dispatcher _ _ dispatched => absurd dispatched.reaches (invertible.direct dispatcher),
      texts, written, encoded, rfl⟩
  unfold Registry.decode at ran ⊢
  rw [wellFormed.compositeNamed] at ran ⊢
  obtain ⟨composite, _, found, ran⟩ := Decode.run_bind_ok.mp ran
  rw [Decode.run_except, Decode.outcome_eq_iff] at found
  obtain ⟨present, rfl⟩ := found
  have table := Registry.found_ok.mp present
  cases json with
  | object members =>
    obtain ⟨again, same, decoded⟩ := Decode.fromEntries_again setting
      (Decode.castWith_again setting _) table passage (wellFormed.reachable_sound reached)
      (.refl after) ran
    refine Decode.run_bind_ok.mpr ⟨composite, after, ?_, ?_⟩
    · rw [Decode.run_except, present]
    · rw [same]
      refine decoded _ ?_
      simp only [Decode.layers, Decode.layersInside, Caster.height, Value.rank, Nat.add_mul]
      omega
  | integer value =>
    rw [Value.ofJson, Value.ofInt] at ran
    split at ran <;> cases ran
  | _ => cases ran

/-! ## A round trip -/

/-- Persons with a name and an age. -/
def aged : Document where
  definitions := [("Person", ⟨[
    ("type", .string "object"),
    ("properties", .object [
      ("Name", .object [("type", .string "string")]),
      ("Age", .object [("type", .string "integer")])])]⟩)]

/-- A person whose age is given as a text. -/
def agedPerson : Fields Json :=
  [("Age", .string "36"), ("Name", .string "Ada")]

/-- Whether a type has nothing but scalar properties. -/
def isFlat (composite : Composite) : Bool :=
  composite.catchAll.isNone && composite.parents.isEmpty &&
    (Fields.values composite.properties).all fun property =>
      match property.caster with
      | .scalar _ => true
      | _ => false

section

variable {registry : Registry} {name : String} {composite : Composite}

theorem isFlat_property (flat : isFlat composite = true) {property : Property}
    (member : property ∈ Fields.values composite.properties) :
    ∃ type, property.caster = .scalar type := by
  simp only [isFlat, Bool.and_eq_true, List.all_eq_true] at flat
  have scalar := flat.2 property member
  split at scalar
  · exact ⟨_, ‹_›⟩
  · cases scalar

theorem isFlat_catchAll (flat : isFlat composite = true) : composite.catchAll = none := by
  simp only [isFlat, Bool.and_eq_true] at flat
  exact Option.isNone_iff_eq_none.mp flat.1.1

theorem isFlat_parents (flat : isFlat composite = true) : composite.parents = [] := by
  simp only [isFlat, Bool.and_eq_true] at flat
  exact List.isEmpty_iff.mp flat.1.2

variable (flat : isFlat composite = true)
  (present : Fields.get? registry.composites name = some composite)

include flat present

theorem reaches_of_isFlat {caster : Caster} (reaches : registry.Reaches (.composite name) caster) :
    caster = .composite name ∨ ∃ type, caster = .scalar type := by
  induction reaches with
  | self => exact .inl rfl
  | item _ ih => simp at ih
  | branch _ _ ih => simp at ih
  | property _ own declared ih =>
    cases ih with
    | inl same =>
      cases same
      rw [present] at own
      cases own
      exact .inr (isFlat_property flat declared)
    | inr scalar => simp at scalar
  | catchAll _ own takes ih =>
    cases ih with
    | inl same =>
      cases same
      rw [present] at own
      cases own
      rw [isFlat_catchAll flat] at takes
      cases takes
    | inr scalar => simp at scalar
  | parent _ own above ih =>
    cases ih with
    | inl same =>
      cases same
      rw [present] at own
      cases own
      rw [isFlat_parents flat] at above
      cases above
    | inr scalar => simp at scalar

theorem invertible_of_isFlat : registry.Invertible (.composite name) where
  direct := fun dispatcher reaches => by simpa using reaches_of_isFlat flat present reaches
  literals := fun other enumeration reaches => by
    simpa using reaches_of_isFlat flat present reaches
  agree := fun other above parents reaches own lineage => by
    cases reaches_of_isFlat flat present reaches with
    | inl same =>
      cases same
      rw [present] at own
      cases own
      have none := isFlat_parents flat
      rw [Composite.parents, lineage] at none
      have empty : parents = [] := none
      subst empty
      constructor
      · intro parent listed
        cases listed
      · intro parent listed
        cases listed
    | inr scalar => simp at scalar

theorem decodes_of_isFlat {members : Fields Value} {inside : String} {entries : Fields Value}
    (decodes : registry.Decodes (.composite name) (.map members) inside entries) :
    inside = name ∧ entries = members := by
  cases decodes with
  | self => exact ⟨rfl, rfl⟩
  | declared own member declares _ inner =>
    rw [present] at own
    cases own
    obtain ⟨type, scalar⟩ := isFlat_property flat
      (Fields.value_mem (Fields.mem_of_get? declares))
    rw [scalar] at inner
    cases inner
  | undeclared own _ _ takes =>
    rw [present] at own
    cases own
    rw [isFlat_catchAll flat] at takes
    cases takes

end

/-- Whether a value is neither a timestamp nor an identifier and has nothing inside. -/
def isBare : Value → Bool
  | .string _ => true
  | .integer _ => true
  | _ => false

/-- What the person is decoded as and written as, with the special names between. -/
def rewriteAged : Except Error (Registry × Composite × Fields Value × NameTable × Json) := do
  let registry ← aged.compile
  let composite ← registry.composite "Person"
  let outcome := (registry.decode "Person" (.ofJson (.object agedPerson))).run registry.names
  match ← outcome.1 with
  | .object type attributes =>
    let written ← (Value.object type attributes).toJson (registry.keyOf outcome.2)
    return (registry, composite, attributes, outcome.2, written)
  | _ => throw .exhausted

/-- Everything that the round trip of the person needs. -/
def agedReturns : Bool :=
  match rewriteAged with
  | .ok (_, composite, attributes, after, _) =>
    isFlat composite && attributes.all (fun (_, value) => isBare value) &&
      (Fields.names agedPerson).all fun key =>
        composite.returned (after.of "Person") key = key
  | .error _ => false

theorem textsReturn_of_isBare {type : String} {attributes : Fields Value}
    (bare : attributes.all (fun (_, value) => isBare value) = true) :
    (Value.object type attributes).TextsReturn := by
  have none : ∀ part, Value.Occurs part (.object type attributes) →
      part = .object type attributes ∨ isBare part = true := by
    intro part occurs
    cases occurs with
    | self => exact .inl rfl
    | @field _ _ name value member inner =>
      have own : isBare value = true := List.all_eq_true.mp bare (name, value) member
      cases inner with
      | self => exact .inr own
      | _ => cases own
  constructor
  · intro time occurs
    simpa [isBare] using none _ occurs
  · intro id occurs
    simpa [isBare] using none _ occurs

theorem rewriteAged_ok {registry : Registry} {composite : Composite} {attributes : Fields Value}
    {after : NameTable} {written : Json}
    (rewritten : rewriteAged = .ok (registry, composite, attributes, after, written)) :
    aged.compile = .ok registry ∧ registry.composite "Person" = .ok composite ∧
      ∃ type, (registry.decode "Person" (.ofJson (.object agedPerson))).run registry.names =
          (.ok (.object type attributes), after) ∧
        (Value.object type attributes).toJson (registry.keyOf after) = .ok written := by
  obtain ⟨made, compiled, rest⟩ := Outcomes.bind_ok.mp rewritten
  obtain ⟨found, present, rest⟩ := Outcomes.bind_ok.mp rest
  obtain ⟨value, ran, rest⟩ := Outcomes.bind_ok.mp rest
  split at rest
  · obtain ⟨json, encoded, last⟩ := Outcomes.bind_ok.mp rest
    cases last
    exact ⟨compiled, present, _, Prod.ext ran rfl, encoded⟩
  · cases rest

theorem decode_round_trip_aged :
    ∃ registry after result written, aged.compile = .ok registry ∧
      registry.Reachable registry.names ∧ registry.Invertible (.composite "Person") ∧
      (registry.decode "Person" (.ofJson (.object agedPerson))).run registry.names =
        (.ok result, after) ∧
      registry.KeysReturn after (.composite "Person") (.ofJson (.object agedPerson)) ∧
      result.TextsReturn ∧ result.toJson (registry.keyOf after) = .ok written ∧
      (registry.decode "Person" (.ofJson written)).run after = (.ok result, after) := by
  have holds : agedReturns = true := by decide +kernel
  unfold agedReturns at holds
  split at holds
  · rename_i registry composite attributes after written rewritten
    simp only [Bool.and_eq_true] at holds
    obtain ⟨⟨flat, bare⟩, carried⟩ := holds
    obtain ⟨compiled, present, type, ran, encoded⟩ := rewriteAged_ok rewritten
    have table := Registry.found_ok.mp present
    have invertible := invertible_of_isFlat flat table
    have texts := @textsReturn_of_isBare type attributes bare
    have keys : registry.KeysReturn after (.composite "Person")
        (.ofJson (.object agedPerson)) := by
      intro inside entries decodes other found key member
      obtain ⟨rfl, rfl⟩ := decodes_of_isFlat flat table decodes
      rw [table] at found
      cases found
      rw [Value.names_ofJsonMembers] at member
      simpa using List.all_eq_true.mp carried key member
    exact ⟨registry, after, _, written, compiled, .start, invertible, ran, keys, texts, encoded,
      decode_round_trip compiled .start invertible ⟨.object agedPerson, by decide⟩ ran keys texts
        encoded⟩
  · cases holds

end Document

end TypedSchema
