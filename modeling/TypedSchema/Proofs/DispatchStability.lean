import TypedSchema.Proofs.RoundTrip

/-!
Dispatch is stable. An object that a polymorph made of some data is made again of the data that it
is written as, provided that the tests which chose the branches come out the same.
-/

namespace TypedSchema

namespace Registry

variable {registry : Registry}

/-! ## Polymorphs -/

/-- What a polymorph reaches, some branch of it reaches. -/
theorem Reaches.of_polymorph {dispatcher : Dispatcher Caster} {caster : Caster}
    (reaches : registry.Reaches (.polymorph dispatcher) caster) :
    caster = .polymorph dispatcher ∨
      ∃ branch ∈ dispatcher.branches, registry.Reaches branch.caster caster := by
  induction reaches with
  | self => exact .inl rfl
  | item _ ih =>
    obtain ⟨branch, listed, inner⟩ := ih.resolve_left nofun
    exact .inr ⟨branch, listed, .item inner⟩
  | @branch outer branch _ listed ih =>
    cases ih with
    | inl same =>
      cases same
      exact .inr ⟨branch, listed, .self⟩
    | inr inner =>
      obtain ⟨first, firstListed, reached⟩ := inner
      exact .inr ⟨first, firstListed, .branch reached listed⟩
  | property _ present declared ih =>
    obtain ⟨branch, listed, inner⟩ := ih.resolve_left nofun
    exact .inr ⟨branch, listed, .property inner present declared⟩
  | catchAll _ present takes ih =>
    obtain ⟨branch, listed, inner⟩ := ih.resolve_left nofun
    exact .inr ⟨branch, listed, .catchAll inner present takes⟩
  | parent _ present above ih =>
    obtain ⟨branch, listed, inner⟩ := ih.resolve_left nofun
    exact .inr ⟨branch, listed, .parent inner present above⟩

/-- A polymorph whose branches are restorable is so as well. -/
theorem Restorable.polymorph {dispatcher : Dispatcher Caster}
    (each : ∀ branch ∈ dispatcher.branches, registry.Restorable branch.caster) :
    registry.Restorable (.polymorph dispatcher) where
  literals := by
    intro name enumeration reaches
    obtain ⟨branch, listed, inner⟩ := reaches.of_polymorph.resolve_left nofun
    exact (each branch listed).literals name enumeration inner
  agree := by
    intro name composite parents reaches
    obtain ⟨branch, listed, inner⟩ := reaches.of_polymorph.resolve_left nofun
    exact (each branch listed).agree name composite parents inner

/-- A polymorph discriminates maps, each of which it casts with the branch that it selects. -/
theorem discriminate_ok {name : String} {entry : Entry} {dispatcher : Dispatcher Caster}
    (registered : registry.entry name = .ok entry) (polymorph : entry.caster = .polymorph dispatcher)
    {value result : Value} {before after : NameTable} :
    (registry.discriminate name value).run before = (.ok result, after) ↔
      ∃ data branch, value = .map data ∧ dispatcher.select data = .ok branch ∧
        (Decode.castFor registry (.polymorph dispatcher) value branch.caster value).run before =
          (.ok result, after) := by
  unfold discriminate
  rw [registered]
  simp only [Decode.run_bind_ok, Decode.run_except, Decode.outcome_eq_iff, Except.ok.injEq]
  constructor
  · rintro ⟨_, _, ⟨rfl, rfl⟩, ran⟩
    rw [polymorph] at ran
    cases value with
    | map data =>
      obtain ⟨branch, _, selected, ran⟩ := Decode.run_bind_ok.mp ran
      rw [Decode.run_except, Decode.outcome_eq_iff] at selected
      obtain ⟨selected, rfl⟩ := selected
      exact ⟨data, branch, rfl, selected, Decode.run_adapt_ok.mp ran⟩
    | _ => cases ran
  · rintro ⟨data, branch, rfl, selected, ran⟩
    refine ⟨entry, before, ⟨rfl, rfl⟩, ?_⟩
    rw [polymorph]
    refine Decode.run_bind_ok.mpr ⟨branch, before, ?_, Decode.run_adapt_ok.mpr ran⟩
    rw [Decode.run_except, selected]

end Registry

namespace Document

/-- Discriminating returns. Let a polymorph make an object of some data, where the literals of all
enumerations within reach are ids and parents agree on what they share. If the keys of all decoded
objects come back from their attributes, timestamps and identifiers from their texts, and the tests
of each dispatcher that was met come out for what is written as they did for what was read, then
discriminating what the object is written as gives the very same object, of the same type. -/
theorem discriminate_again {document : Document} {registry : Registry}
    (compiled : document.compile = .ok registry)
    {before after : NameTable} (reached : registry.Reachable before) {name : String}
    {entry : Entry} {dispatcher : Dispatcher Caster} (registered : registry.entry name = .ok entry)
    (polymorph : entry.caster = .polymorph dispatcher)
    (restorable : registry.Restorable (.polymorph dispatcher)) (json : Json.Keyed)
    {type : String} {attributes : Fields Value}
    (ran : (registry.discriminate name (.ofJson json.val)).run before =
      (.ok (.object type attributes), after))
    (keys : registry.KeysReturn after (.polymorph dispatcher) (.ofJson json.val))
    (dispatches : registry.DispatchesReturn after (.polymorph dispatcher) (.ofJson json.val)
      (.object type attributes))
    (texts : (Value.object type attributes).TextsReturn) {written : Json}
    (encoded : (Value.object type attributes).toJson (registry.keyOf after) = .ok written) :
    (registry.discriminate name (.ofJson written)).run after =
      (.ok (.object type attributes), after) := by
  obtain ⟨json, keyed⟩ := json
  have wellFormed := compile_wellFormed compiled
  have last : registry.Reachable after := by
    have discriminated := reached.discriminated name (.ofJson json)
    rwa [ran] at discriminated
  have setting := registry.setting wellFormed (compile_descends compiled) last
  have lifted := Value.ofJson_lifted json keyed
  obtain ⟨data, branch, read, selected, casted⟩ :=
    (Registry.discriminate_ok registered polymorph).mp ran
  rw [read] at keys dispatches lifted casted
  obtain ⟨again, rewritten, alike⟩ :=
    dispatches dispatcher _ _ .self (.ofJson written) ⟨written, encoded, rfl⟩
  have listed := Decode.select_mem selected
  -- The branch is chosen again, and what it makes of the data written is what it made before.
  have passage : Decode.Passage registry after branch.caster (.map data)
      (.object type attributes) (.ofJson written) := {
    restorable := restorable.inner (.branch .self listed)
    lifted := lifted
    keys := fun other entries decoded => keys other entries (.branch selected decoded)
    dispatches := fun other data outcome dispatched =>
      dispatches other data outcome (.branch selected dispatched)
    texts := texts
    rereads := ⟨written, encoded, rfl⟩ }
  rw [rewritten] at passage ⊢
  refine (Registry.discriminate_ok registered polymorph).mpr
    ⟨again, branch, rfl, alike.select selected, ?_⟩
  have lower := Caster.height_of_branch listed
  exact Decode.castWith_again setting _ branch.caster _ _ _ before passage
    (wellFormed.reachable_sound reached) ⟨before, after, .refl _, .refl _, casted⟩ _
    (by unfold Decode.layers; omega)

/-! ## Flat branches -/

/-- Whether all branches lead to types that have nothing but scalar properties. -/
def branchesFlat (registry : Registry) (dispatcher : Dispatcher Caster) : Bool :=
  dispatcher.branches.all fun branch =>
    match branch.caster with
    | .composite name => ((Fields.get? registry.composites name).map isFlat).getD false
    | _ => false

section

variable {registry : Registry} {dispatcher : Dispatcher Caster}
  (flat : branchesFlat registry dispatcher = true)

include flat

theorem branch_of_branchesFlat {branch : Branch Caster} (listed : branch ∈ dispatcher.branches) :
    ∃ name composite, branch.caster = .composite name ∧
      Fields.get? registry.composites name = some composite ∧ isFlat composite = true := by
  have own := List.all_eq_true.mp flat branch listed
  split at own
  · rename_i name caster
    cases present : Fields.get? registry.composites name with
    | none =>
      rw [present] at own
      cases own
    | some composite =>
      rw [present] at own
      exact ⟨name, composite, caster, present, own⟩
  · cases own

theorem restorable_of_branchesFlat : registry.Restorable (.polymorph dispatcher) := by
  refine .polymorph fun branch listed => ?_
  obtain ⟨name, composite, caster, present, own⟩ := branch_of_branchesFlat flat listed
  rw [caster]
  exact (invertible_of_isFlat own present).restorable

/-- Only the map itself is decoded, by the type of the branch that it selects. -/
theorem decodes_of_branchesFlat {members entries : Fields Value} {inside : String}
    (decodes : registry.Decodes (.polymorph dispatcher) (.map members) inside entries) :
    ∃ branch, dispatcher.select members = .ok branch ∧ branch.caster = .composite inside ∧
      entries = members := by
  cases decodes with
  | @branch _ _ branch _ _ selected inner =>
    obtain ⟨name, composite, caster, present, own⟩ :=
      branch_of_branchesFlat flat (Decode.select_mem selected)
    rw [caster] at inner
    obtain ⟨rfl, same⟩ := decodes_of_isFlat own present inner
    exact ⟨branch, selected, caster, same⟩

/-- Only the map itself is dispatched on. -/
theorem dispatchesReturn_of_branchesFlat {members : Fields Value} {result : Value}
    {names : NameTable} {again : Fields Value}
    (read : ∀ data, Value.Rereads (registry.keyOf names) result data → data = .map again)
    (alike : dispatcher.Alike members again) :
    registry.DispatchesReturn names (.polymorph dispatcher) (.map members) result := by
  intro other inside outcome dispatches data rereads
  cases dispatches with
  | self => exact ⟨again, read data rereads, alike⟩
  | branch selected inner =>
    obtain ⟨name, composite, caster, present, own⟩ :=
      branch_of_branchesFlat flat (Decode.select_mem selected)
    rw [caster] at inner
    exact absurd inner.reaches ((invertible_of_isFlat own present).direct other)

end

/-- Pets of two kinds. -/
def pets : Document where
  definitions := [
    ("Cat", ⟨[
      ("type", .string "object"),
      ("properties", .object [
        ("Kind", .object [("type", .string "string")]),
        ("Lives", .object [("type", .string "integer")])])]⟩),
    ("Dog", ⟨[
      ("type", .string "object"),
      ("properties", .object [("Kind", .object [("type", .string "string")])])]⟩),
    ("Pet", ⟨[
      ("oneOf", .array [
        .object [("$ref", .string "#/$defs/Cat")], .object [("$ref", .string "#/$defs/Dog")]]),
      ("discriminator", .object [
        ("propertyName", .string "Kind"),
        ("mapping", .object [
          ("Cat", .string "#/$defs/Cat"), ("Dog", .string "#/$defs/Dog")])])]⟩)]

/-- A cat whose lives are given as a text. -/
def cat : Fields Json :=
  [("Kind", .string "Cat"), ("Lives", .string "9")]

/-- What becomes of data that a polymorph of a document makes an object of. -/
structure Rewritten where
  registry : Registry
  entry : Entry
  property : String
  branches : List (String × Branch Caster)
  type : String
  attributes : Fields Value
  after : NameTable
  written : Fields Json

/-- Discriminates data by a keyed polymorph, and writes the object. -/
def rewrite (document : Document) (name : String) (members : Fields Json) :
    Except Error Rewritten := do
  let registry ← document.compile
  let entry ← registry.entry name
  let outcome := (registry.discriminate name (.ofJson (.object members))).run registry.names
  match entry.caster, ← outcome.1 with
  | .polymorph (.keyed property branches), .object type attributes =>
    match ← (Value.object type attributes).toJson (registry.keyOf outcome.2) with
    | .object written =>
      return { registry, entry, property, branches, type, attributes, after := outcome.2, written }
    | _ => throw .exhausted
  | _, _ => throw .exhausted

theorem rewrite_ok {document : Document} {name : String} {members : Fields Json}
    {rewritten : Rewritten} (ran : rewrite document name members = .ok rewritten) :
    document.compile = .ok rewritten.registry ∧
      rewritten.registry.entry name = .ok rewritten.entry ∧
      rewritten.entry.caster = .polymorph (.keyed rewritten.property rewritten.branches) ∧
      (rewritten.registry.discriminate name (.ofJson (.object members))).run
          rewritten.registry.names =
        (.ok (.object rewritten.type rewritten.attributes), rewritten.after) ∧
      (Value.object rewritten.type rewritten.attributes).toJson
        (rewritten.registry.keyOf rewritten.after) = .ok (.object rewritten.written) := by
  obtain ⟨registry, compiled, ran⟩ := Outcomes.bind_ok.mp ran
  obtain ⟨entry, registered, ran⟩ := Outcomes.bind_ok.mp ran
  obtain ⟨value, given, ran⟩ := Outcomes.bind_ok.mp ran
  split at ran
  · rename_i polymorph
    obtain ⟨json, encoded, ran⟩ := Outcomes.bind_ok.mp ran
    split at ran
    · cases ran
      exact ⟨compiled, registered, polymorph, Prod.ext given rfl, encoded⟩
    · cases ran
  · cases ran

/-- Everything that the cat needs to stay a cat. -/
def catStays (rewritten : Rewritten) : Bool :=
  let { registry, property, branches, attributes, after, written, .. } := rewritten
  branchesFlat registry (.keyed property branches) &&
    attributes.all (fun (_, value) => isBare value) &&
    decide (Decode.keyOfField? (Value.ofJsonMembers cat) property =
      Decode.keyOfField? (Value.ofJsonMembers written) property) &&
    registry.composites.all fun (name, composite) =>
      (Fields.names cat).all fun key => composite.returned (after.of name) key = key

theorem discriminate_again_pets :
    ∃ rewritten : Rewritten, pets.compile = .ok rewritten.registry ∧
      rewritten.registry.Reachable rewritten.registry.names ∧
      rewritten.registry.entry "Pet" = .ok rewritten.entry ∧
      rewritten.entry.caster = .polymorph (.keyed rewritten.property rewritten.branches) ∧
      rewritten.registry.Restorable (.polymorph (.keyed rewritten.property rewritten.branches)) ∧
      (rewritten.registry.discriminate "Pet" (.ofJson (.object cat))).run
          rewritten.registry.names =
        (.ok (.object rewritten.type rewritten.attributes), rewritten.after) ∧
      rewritten.registry.KeysReturn rewritten.after
        (.polymorph (.keyed rewritten.property rewritten.branches)) (.ofJson (.object cat)) ∧
      rewritten.registry.DispatchesReturn rewritten.after
        (.polymorph (.keyed rewritten.property rewritten.branches)) (.ofJson (.object cat))
        (.object rewritten.type rewritten.attributes) ∧
      (Value.object rewritten.type rewritten.attributes).TextsReturn ∧
      (Value.object rewritten.type rewritten.attributes).toJson
        (rewritten.registry.keyOf rewritten.after) = .ok (.object rewritten.written) ∧
      (rewritten.registry.discriminate "Pet" (.ofJson (.object rewritten.written))).run
          rewritten.after =
        (.ok (.object rewritten.type rewritten.attributes), rewritten.after) := by
  have stays : ∃ rewritten ∈ (rewrite pets "Pet" cat).toOption, catStays rewritten = true := by
    decide +kernel
  obtain ⟨rewritten, made, stays⟩ := stays
  obtain ⟨compiled, registered, polymorph, ran, encoded⟩ :=
    rewrite_ok (Outcomes.toOption_iff.mp made)
  simp only [catStays, Bool.and_eq_true, decide_eq_true_eq] at stays
  obtain ⟨⟨⟨flat, bare⟩, alike⟩, returned⟩ := stays
  have restorable := restorable_of_branchesFlat flat
  have texts := @textsReturn_of_isBare rewritten.type _ bare
  have keys : rewritten.registry.KeysReturn rewritten.after
      (.polymorph (.keyed rewritten.property rewritten.branches)) (.ofJson (.object cat)) := by
    intro inside entries decodes composite present key member
    obtain ⟨-, -, -, rfl⟩ := decodes_of_branchesFlat flat decodes
    rw [Value.names_ofJsonMembers] at member
    have own := List.all_eq_true.mp returned _ (Fields.mem_of_get? present)
    simpa using List.all_eq_true.mp own key member
  have dispatches : rewritten.registry.DispatchesReturn rewritten.after
      (.polymorph (.keyed rewritten.property rewritten.branches)) (.ofJson (.object cat))
      (.object rewritten.type rewritten.attributes) := by
    refine dispatchesReturn_of_branchesFlat flat (fun data rereads => ?_) alike
    obtain ⟨json, other, rfl⟩ := rereads
    rw [encoded] at other
    cases other
    rfl
  exact ⟨rewritten, compiled, .start, registered, polymorph, restorable, ran, keys,
    dispatches, texts, encoded, discriminate_again compiled .start registered polymorph
      restorable ⟨.object cat, by decide⟩ ran keys dispatches texts encoded⟩

/-- Pets that are cats if their kind is `1`, which cats take for a truth value. -/
def truthful : Document where
  definitions := [
    ("Cat", ⟨[
      ("type", .string "object"),
      ("properties", .object [("Kind", .object [("type", .string "boolean")])])]⟩),
    ("Pet", ⟨[
      ("oneOf", .array [.object [("$ref", .string "#/$defs/Cat")]]),
      ("discriminator", .object [
        ("propertyName", .string "Kind"),
        ("mapping", .object [("1", .string "#/$defs/Cat")])])]⟩)]

/-- Whether an outcome is an error about a key. -/
def isKeyError : Except Error Value → Bool
  | .error (.key _ _) => true
  | _ => false

/-- A cat that is written is no cat any more. -/
theorem discriminate_loses_cat :
    ∃ rewritten : Rewritten, truthful.compile = .ok rewritten.registry ∧
      rewritten.entry.caster = .polymorph (.keyed rewritten.property rewritten.branches) ∧
      (rewritten.registry.discriminate "Pet" (.ofJson (.object [("Kind", .integer 1)]))).run
          rewritten.registry.names =
        (.ok (.object rewritten.type rewritten.attributes), rewritten.after) ∧
      (Value.object rewritten.type rewritten.attributes).toJson
        (rewritten.registry.keyOf rewritten.after) = .ok (.object rewritten.written) ∧
      isKeyError ((rewritten.registry.discriminate "Pet"
        (.ofJson (.object rewritten.written))).run rewritten.after).1 = true := by
  have lost : ∃ rewritten ∈ (rewrite truthful "Pet" [("Kind", .integer 1)]).toOption,
      isKeyError ((rewritten.registry.discriminate "Pet"
        (.ofJson (.object rewritten.written))).run rewritten.after).1 = true := by
    decide +kernel
  obtain ⟨rewritten, made, lost⟩ := lost
  obtain ⟨compiled, -, polymorph, ran, encoded⟩ := rewrite_ok (Outcomes.toOption_iff.mp made)
  exact ⟨rewritten, compiled, polymorph, ran, encoded, lost⟩

end Document

end TypedSchema
