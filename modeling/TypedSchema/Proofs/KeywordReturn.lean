import TypedSchema.Proofs.Decode.Rebuilding
import TypedSchema.Proofs.KeyPreservation
import TypedSchema.Proofs.Registry.Alike
import TypedSchema.Proofs.RoundTrip

/-!
Objects that are built by keyword. Their attributes have not been keys of a document before, and
nothing is noted of those that conversion does not carry to a key and back; what is decoded from the
plain form has the same attributes only if none is such.
-/

namespace TypedSchema

namespace Document

/-- What is kept of an object that was built by keyword, when it is decoded from its plain form. Let
the type take anything under other names, and the keywords be identifiers. Then an attribute comes
back from its key exactly if it is declared or special, or else is regained, which for ASCII means
that it is in snake case. If all attributes come back, the object is rebuilt. -/
theorem plain_form_rebuilds {document : Document} {registry : Registry}
    (compiled : document.compile = .ok registry)
    {before after : NameTable} (reached : registry.Reachable before) {name : String}
    {composite : Composite} (present : registry.composite name = .ok composite)
    {catchAll : CatchAll} (takes : composite.catchAll = some catchAll)
    (untyped : catchAll.type = .any) {keyword : Fields Value} (apart : Fields.Distinct keyword)
    (identifiers : ∀ key ∈ Fields.names keyword, Naming.isIdentifier key = true) {result : Value}
    (built : (registry.construct name { keyword := keyword }).run before = (.ok result, after)) :
    ∃ attributes, result = .object name attributes ∧
      (∀ field ∈ Fields.names attributes,
        ((composite.internalName (composite.externalName field (after.of name))
            (after.of name)).1 = field ↔ composite.Regains (after.of name) field) ∧
        (composite.property? field = none → (∀ c ∈ field.toList, c.toNat < 128) →
          (composite.Regains (after.of name) field ↔
            field ∈ after.of name ∨ Naming.snaked field.toList = true))) ∧
      ((∀ field ∈ Fields.names attributes, composite.Regains (after.of name) field) →
        composite.Rebuilds registry after attributes) := by
  have wellFormed := compile_wellFormed compiled
  have found := Registry.found_ok.mp present
  obtain ⟨rfl, own⟩ := wellFormed.composites name composite found
  have last : registry.Reachable after := by
    have constructed := reached.constructed composite.name { keyword := keyword }
    rwa [built] at constructed
  have setting := registry.setting wellFormed (compile_descends compiled) last
  rw [Decode.construct_eq wellFormed found] at built
  have growing := Decode.castWith_growing registry (Decode.layers registry
    (.composite composite.name) (.list ([] ++ Fields.values keyword)))
  obtain ⟨attributes, rfl, filled⟩ :=
    Decode.construct_filled wellFormed growing found apart built
  have named : ∀ field ∈ Fields.names attributes,
      composite.property? field = none → Naming.isIdentifier field = true := by
    intro field member undeclared
    refine identifiers field ((filled.only field member).resolve_left ?_)
    exact Fields.get?_eq_none_iff.mp undeclared
  have sound := setting.sound composite.name
  refine ⟨attributes, rfl, fun field member => ⟨?_, fun undeclared ascii => ?_⟩, ?_⟩
  · rw [Composite.internalName_fst sound]
    exact Composite.attributeOf_externalName_iff own (named field member) sound
  · rw [Composite.Regains, ← Naming.regained_iff_snaked (named field member undeclared) ascii]
    simp [undeclared]
  · exact Decode.construct_rebuilds setting found takes untyped growing apart built filled.distinct
      named

/-- What is constructed as a bag from keywords, with the registry and the type, and the special
names afterwards. -/
def buildBag (keyword : Fields Value) :
    Except Error (Registry × Composite × Value × NameTable) := do
  let registry ← bags.compile
  let composite ← registry.composite "Bag"
  let outcome := (registry.construct "Bag" { keyword := keyword }).run registry.names
  return (registry, composite, ← outcome.1, outcome.2)

theorem buildBag_ok {keyword : Fields Value} {registry : Registry} {composite : Composite}
    {result : Value} {after : NameTable}
    (built : buildBag keyword = .ok (registry, composite, result, after)) :
    bags.compile = .ok registry ∧ registry.composite "Bag" = .ok composite ∧
      (registry.construct "Bag" { keyword := keyword }).run registry.names =
        (.ok result, after) := by
  obtain ⟨_, compiled, rest⟩ := Outcomes.bind_ok.mp built
  obtain ⟨_, present, rest⟩ := Outcomes.bind_ok.mp rest
  obtain ⟨_, ran, last⟩ := Outcomes.bind_ok.mp rest
  cases last
  exact ⟨compiled, present, Prod.ext ran rfl⟩

/-- Whether a type takes anything under names that it does not declare. -/
def takesAnything (composite : Composite) : Bool :=
  match composite.catchAll with
  | some ⟨_, .any⟩ => true
  | _ => false

theorem takesAnything_ok {composite : Composite} (takes : takesAnything composite = true) :
    ∃ catchAll, composite.catchAll = some catchAll ∧ catchAll.type = .any := by
  unfold takesAnything at takes
  split at takes
  · rename_i caster found
    exact ⟨_, found, rfl⟩
  · cases takes

/-- Whether an object has no name, but a size. -/
def isSized : Value → Bool
  | .object _ [(first, .null), (second, .integer size)] =>
    first = "name" && second = "sample_size" && size = 3
  | _ => false

theorem isSized_ok {value : Value} (sized : isSized value = true) :
    ∃ type, value = .object type [("name", .null), ("sample_size", .integer 3)] := by
  unfold isSized at sized
  split at sized
  · rename_i type first second size
    simp only [Bool.and_eq_true, decide_eq_true_eq] at sized
    obtain ⟨⟨rfl, rfl⟩, rfl⟩ := sized
    exact ⟨type, rfl⟩
  · cases sized

/-- Whether a bag that was built by keyword has its size, and bags declare their names alone. -/
def isSizedBag (built : Registry × Composite × Value × NameTable) : Bool :=
  takesAnything built.2.1 && built.1.allShare && (built.2.1.property? "name").isSome &&
    (built.2.1.property? "sample_size").isNone && isSized built.2.2.1

theorem plain_form_rebuilds_sized :
    ∃ registry composite catchAll after attributes, bags.compile = .ok registry ∧
      registry.Reachable registry.names ∧
      registry.composite "Bag" = .ok composite ∧ composite.catchAll = some catchAll ∧
      catchAll.type = .any ∧ Fields.Distinct [("sample_size", Value.integer 3)] ∧
      (∀ key ∈ Fields.names [("sample_size", Value.integer 3)],
        Naming.isIdentifier key = true) ∧
      (registry.construct "Bag" { keyword := [("sample_size", .integer 3)] }).run
        registry.names = (.ok (.object "Bag" attributes), after) ∧
      (∀ field ∈ Fields.names attributes, composite.Regains (after.of "Bag") field) ∧
      composite.Rebuilds registry after attributes ∧
      registry.decodeAgain after "Bag" attributes = (.ok (.object "Bag" attributes), after) := by
  have sized : ∃ built ∈ (buildBag [("sample_size", .integer 3)]).toOption,
      isSizedBag built = true := by
    decide +kernel
  have apart : Fields.Distinct [("sample_size", Value.integer 3)] := by decide
  have identifiers : ∀ key ∈ Fields.names [("sample_size", Value.integer 3)],
      Naming.isIdentifier key = true := by decide +kernel
  obtain ⟨⟨registry, composite, result, after⟩, made, holds⟩ := sized
  simp only [isSizedBag, Bool.and_eq_true, Option.isSome_iff_ne_none, Option.isNone_iff_eq_none]
    at holds
  obtain ⟨⟨⟨⟨takes, shares⟩, named⟩, unsized⟩, shape⟩ := holds
  obtain ⟨compiled, present, built⟩ := buildBag_ok (Outcomes.toOption_iff.mp made)
  obtain ⟨catchAll, takes, untyped⟩ := takesAnything_ok takes
  obtain ⟨type, rfl⟩ := isSized_ok shape
  obtain ⟨attributes, same, -, rebuilds⟩ :=
    plain_form_rebuilds compiled .start present takes untyped apart identifiers built
  cases same
  have regains : ∀ field ∈ Fields.names [("name", Value.null), ("sample_size", .integer 3)],
      composite.Regains (after.of "Bag") field := by
    simp only [Fields.names, List.map_cons, List.map_nil, List.forall_mem_cons,
      List.not_mem_nil, false_implies, implies_true, and_true]
    exact ⟨.inl named, .inr (.inr (by decide +kernel))⟩
  have rebuilt := rebuilds regains
  have recovers : ∀ name property value, composite.property? name = some property →
      Fields.get? [("name", .null), ("sample_size", .integer 3)] name = some value →
        registry.Recovers after property value := by
    intro name property value declared held
    rw [Fields.get?_cons, Fields.get?_cons, Fields.get?_nil] at held
    split at held
    · cases held
      rfl
    · split at held
      · rename_i size
        rw [show name = "sample_size" from size, unsized] at declared
        cases declared
      · cases held
  have again := rebuilt.whole (registry.allShare_sound shares _) recovers
  have plain : composite.plainExtras (registry.keyOf after)
      [("name", .null), ("sample_size", .integer 3)] =
        [("name", .null), ("sample_size", .integer 3)] := by
    simp [Composite.plainExtras, Value.toPlain]
  have own := ((compile_wellFormed compiled).composites "Bag" composite
    (Registry.found_ok.mp present)).1
  rw [plain, own] at again
  exact ⟨registry, composite, catchAll, after, _, compiled, .start, present, takes,
    untyped, apart, identifiers, built, regains, rebuilt, again⟩

/-- Whether a bag that was built by keyword has a step 2 that is stored under another name when the
bag is decoded from its plain form. -/
def renamesStep (built : Registry × Composite × Value × NameTable) : Bool :=
  let special := built.2.2.2.of "Bag"
  takesAnything built.2.1 &&
    (built.2.1.internalName (built.2.1.externalName "step_2" special) special).1 = "step2" &&
    match built.2.2.1 with
    | .object type attributes =>
      type = "Bag" && (Fields.names attributes).contains "step_2" &&
        match (built.1.decodeAgain built.2.2.2 "Bag" attributes).1 with
        | .ok (.object other others) =>
          other = "Bag" && !(Fields.names others).contains "step_2"
        | _ => false
    | _ => false

/-- An underscore before a digit is lost on the way, and with it the attribute. -/
theorem plain_form_renames :
    ∃ registry composite catchAll attributes after others later,
      bags.compile = .ok registry ∧ registry.composite "Bag" = .ok composite ∧
      composite.catchAll = some catchAll ∧ catchAll.type = .any ∧
      Naming.isIdentifier "step_2" = true ∧
      (registry.construct "Bag" { keyword := [("step_2", .integer 3)] }).run registry.names =
        (.ok (.object "Bag" attributes), after) ∧
      "step_2" ∈ Fields.names attributes ∧
      (composite.internalName (composite.externalName "step_2" (after.of "Bag"))
        (after.of "Bag")).1 ≠ "step_2" ∧
      registry.decodeAgain after "Bag" attributes = (.ok (.object "Bag" others), later) ∧
      "step_2" ∉ Fields.names others := by
  have renames : ∃ built ∈ (buildBag [("step_2", .integer 3)]).toOption,
      renamesStep built = true := by
    decide +kernel
  obtain ⟨⟨registry, composite, result, after⟩, made, holds⟩ := renames
  obtain ⟨compiled, present, built⟩ := buildBag_ok (Outcomes.toOption_iff.mp made)
  simp only [renamesStep, Bool.and_eq_true, decide_eq_true_eq] at holds
  obtain ⟨⟨takes, internal⟩, rest⟩ := holds
  obtain ⟨catchAll, takes, untyped⟩ := takesAnything_ok takes
  split at rest
  · rename_i type attributes
    simp only [Bool.and_eq_true, decide_eq_true_eq] at rest
    obtain ⟨⟨rfl, member⟩, lost⟩ := rest
    split at lost
    · rename_i other others decoded
      simp only [Bool.and_eq_true, decide_eq_true_eq] at lost
      obtain ⟨rfl, lost⟩ := lost
      refine ⟨registry, composite, catchAll, attributes, after, others,
        (registry.decodeAgain after "Bag" attributes).2, compiled, present, takes, untyped,
        by decide +kernel, built, by simpa using member, ?_, Prod.ext decoded rfl,
        by simpa using lost⟩
      rw [internal]
      decide
    · cases lost
  · cases rest

end Document

end TypedSchema
