import TypedSchema.Proofs.Compile.Generations
import TypedSchema.Proofs.Decode.Assigning
import TypedSchema.Proofs.Registry.Alike
import TypedSchema.Proofs.Respelling

/-!
Combined initializers do what their signatures say. A type with several parents binds its arguments
once and hands them to the initializers of its parents, and so on upwards; attributes may so be
filled more than once. Where parents agree, the outcome is that of filling each attribute once. What
could come between is a key that is met when the arguments are read and that is also an attribute of
an object among them, since from then on the object would be read under another key.
-/

namespace TypedSchema

/-- All values among the arguments. -/
def Arguments.values (arguments : Arguments) : List Value :=
  arguments.positional ++ Fields.values arguments.keyword

theorem Arguments.hold_values (arguments : Arguments) :
    arguments.Hold fun value => value ∈ arguments.values where
  positional := fun _ member => List.mem_append_left _ member
  keyword := fun _ member => List.mem_append_right _ (Fields.value_mem member)

theorem Arguments.Hold.mono {holds wanted : Value → Prop} {arguments : Arguments}
    (hold : arguments.Hold holds) (each : ∀ value, holds value → wanted value) :
    arguments.Hold wanted where
  positional := fun value member => each value (hold.positional value member)
  keyword := fun entry member => each entry.2 (hold.keyword entry member)

namespace Value

theorem toPlain_object (keyOf : KeyOf) (type : String) (attributes : Fields Value) :
    toPlain keyOf (.object type attributes) = .map (toEntries keyOf type attributes) := by
  rw [toPlain, toEntries]

/-- A key that is met when the value is read: that of a map in it, or one in the plain form of an
object in it. -/
def Meets (keyOf : KeyOf) (value : Value) (key : String) : Prop :=
  value.HasKey key ∨ ∃ type attributes, Occurs (.object type attributes) value ∧
    (toPlain keyOf (.object type attributes)).HasKey key

end Value

/-- No attribute among the values that could still be respelled is met as a key. -/
def Registry.KeysApart (registry : Registry) (names : NameTable) (values : List Value) : Prop :=
  ∀ value ∈ values, ∀ type attributes, Value.Occurs (.object type attributes) value →
    ∀ name ∈ Fields.names attributes, registry.Respellable names type name →
      ∀ other ∈ values, ¬other.Meets (registry.keyOf names) name

/-- Values without objects have no attributes. -/
theorem Registry.KeysApart.of_plain {registry : Registry} {names : NameTable} {values : List Value}
    (plain : ∀ value ∈ values, value.Plain) : registry.KeysApart names values :=
  fun value member type attributes occurs =>
    absurd occurs ((plain value member).no_object type attributes)

/-! ## While arguments are read -/

/-- Tables to which conversion has added names that are met. -/
structure NameTable.Near (start : NameTable) (met : String → Prop) (names : NameTable) : Prop where
  grows : NameTable.Grows start names
  added : ∀ type name, name ∈ names.of type → name ∈ start.of type ∨ met name

theorem NameTable.near_upward {start : NameTable} (sound : start.Sound) (met : String → Prop) :
    Decode.Upward (start.Near met) met where
  sound := fun _ near => sound.grow near.grows
  grow := by
    intro before after near grows keys
    refine ⟨near.grows.trans grows, fun type name member => ?_⟩
    rcases keys type name member with held | new
    · exact near.added type name held
    · exact .inr new

theorem NameTable.near_self (start : NameTable) (met : String → Prop) : start.Near met start :=
  ⟨.refl start, fun _ _ => .inl⟩

/-- Where keys are apart, every object among the values is written alike all along. -/
theorem Registry.KeysApart.settled {registry : Registry} {names : NameTable} {values : List Value}
    (apart : registry.KeysApart names values) {met : String → Prop}
    (reads : ∀ key, met key ↔ ∃ other ∈ values, other.Meets (registry.keyOf names) key)
    {value : Value} (member : value ∈ values) :
    value.Settled registry (names.Near met) met where
  keys := fun key has => (reads key).mpr ⟨value, member, .inl has⟩
  objects := by
    intro type attributes occurs
    have plain := Value.toPlain_object (registry.keyOf names) type attributes
    refine ⟨Value.toEntries (registry.keyOf names) type attributes, fun later near => ?_, ?_, ?_⟩
    · have same : Value.SameKeys (registry.keyOf later) (registry.keyOf names) value := by
        intro type attributes inside name listed
        -- A key that changed is of an attribute that has become special, so this was met.
        by_contra changed
        have respells := (Registry.keyOf_ne_iff near.grows).mp changed
        obtain ⟨other, among, meets⟩ :=
          (reads name).mp ((near.added type name respells.special).resolve_left respells.plain)
        exact apart value member type attributes inside name listed respells.toRespellable other
          among meets
      have written := Value.toPlain_congr _ (same.inner occurs)
      rw [plain, Value.toPlain_object] at written
      exact Value.map.inj written
    · rw [← plain]
      exact Value.toPlain_objectless _ _
    · intro key has
      rw [← plain] at has
      exact (reads key).mpr ⟨value, member, .inr ⟨type, attributes, occurs, has⟩⟩

namespace Decode

variable {registry : Registry} {cast : Cast}

/-! ## Binding once -/

/-- An initializer looks at its arguments only to bind them. -/
theorem runInitializer_congr {depth : Nat} {type : String} {initializer : Initializer}
    {arguments others : Arguments} (same : initializer.signature.bind arguments =
      initializer.signature.bind others) (assigned : Fields Value) :
    runInitializer registry cast depth type initializer arguments assigned =
      runInitializer registry cast depth type initializer others assigned := by
  cases initializer with
  | direct signature =>
    have bound : signature.bind arguments = signature.bind others := same
    cases depth <;> simp only [runInitializer, invoke, bound]
  | combined signature parents =>
    have bound : signature.bind arguments = signature.bind others := same
    cases depth with
    | zero => rfl
    | succ depth => simp only [runInitializer, bound]

theorem runInitializer_unbound {depth : Nat} {type : String} {initializer : Initializer}
    {arguments : Arguments} {error : Error}
    (failed : initializer.signature.bind arguments = .error error) {assigned result : Fields Value}
    {names : NameTable} :
    ((runInitializer registry cast depth type initializer arguments assigned).run names).1 ≠
      .ok result := by
  cases initializer with
  | direct signature =>
    have unbound : signature.bind arguments = .error error := failed
    cases depth <;> simp [runInitializer, invoke, unbound]
  | combined signature parents =>
    have unbound : signature.bind arguments = .error error := failed
    cases depth with
    | zero =>
      intro given
      cases given
    | succ depth => simp [runInitializer, unbound]

variable {holds : Value → Prop}

/-- Once its arguments are bound, an initializer makes the assignments of its leaves. -/
theorem runInitializer_bound
    (nested : ∀ name composite, Fields.get? registry.composites name = some composite →
      Nested registry composite.initializer) {depth : Nat} {type : String}
    {initializer : Initializer} (own : Nested registry initializer) {arguments : Arguments}
    {bound : Bound} (binding : initializer.signature.bind arguments = .ok bound)
    (binds : initializer.signature.Binds holds bound) {found : List Signature}
    (held : leaves registry depth initializer = some found) {assigned result : Fields Value}
    {names : NameTable} :
    ((runInitializer registry cast depth type initializer arguments assigned).run names).1 =
        .ok result ↔
      ((assignAll registry cast (found.flatMap (·.assignments bound)) assigned).run names).1 =
        .ok result := by
  have distinct := binds.distinct own.params
  obtain ⟨accepts, same⟩ := binds.boundTo_keywords own.params
  have again : initializer.signature.bind { keyword := Signature.Binds.keywords bound } =
      .ok bound := (Signature.bind_ok_iff own.params distinct).mpr ⟨accepts, same.symm⟩
  have byLeaves : RunsByLeaves registry cast depth := runInitializer_ok nested depth
  have runs := byLeaves type initializer own (Signature.Binds.keywords bound) distinct assigned
    result names
  -- Positional or not, the arguments bind like the keywords that they were bound to.
  rw [runInitializer_congr (binding.trans again.symm), run_fst_ok, run_fst_ok]
  refine exists_congr fun after => (runs after).trans ?_
  rw [same, held]
  constructor
  · rintro ⟨-, others, equal, assigns⟩
    cases equal
    exact assigns
  · intro assigns
    exact ⟨accepts, found, rfl, assigns⟩

/-! ## Initializing -/

/-- A signature by itself, as the initializer of a type. -/
theorem nested_direct {signature : Signature} (params : signature.DistinctParams) :
    Nested registry (.direct signature) where
  params := params
  within := nofun

/-- An initializer and the signature that its arguments are bound to succeed alike, with the same
attributes. -/
theorem initializer_refines (wellFormed : registry.WellFormed) (descends : registry.Descends)
    (reached : registry.Reached) {near : NameTable → Prop} {allowed : String → Prop}
    (upward : Upward near allowed) (steady : SteadyCast registry near allowed cast) {name : String}
    {composite : Composite} (agree : registry.AncestorsAgree name)
    (present : Fields.get? registry.composites name = some composite) {arguments : Arguments}
    (hold : arguments.Hold (Value.Settled registry near allowed)) {names : NameTable}
    (here : near names) (type : String) :
    ((∃ result, ((runInitializer registry cast (generations registry) type composite.initializer
          arguments []).run names).1 = .ok result) ↔
      ∃ result, ((runInitializer registry cast (generations registry) type
        (.direct composite.signature) arguments []).run names).1 = .ok result) ∧
    ∀ left right, ((runInitializer registry cast (generations registry) type composite.initializer
        arguments []).run names).1 = .ok left →
      ((runInitializer registry cast (generations registry) type (.direct composite.signature)
        arguments []).run names).1 = .ok right → left.Perm right := by
  have own := (wellFormed.composites name composite present).2
  have fillable := fillable_settled wellFormed steady present
  cases binding : composite.signature.bind arguments with
  | error error =>
    have alone : (Initializer.direct composite.signature).signature.bind arguments =
      .error error := binding
    refine ⟨⟨?_, ?_⟩, ?_⟩
    · rintro ⟨result, ran⟩
      exact absurd ran (runInitializer_unbound binding)
    · rintro ⟨result, ran⟩
      exact absurd ran (runInitializer_unbound alone)
    · intro left right ran
      exact absurd ran (runInitializer_unbound binding)
  | ok bound =>
    have binds := Signature.bind_binds fillable.params fillable.defaults hold binding
    obtain ⟨found, held⟩ := reached name composite present
    have combined := fun result => @runInitializer_bound registry cast _ wellFormed.nested
      (generations registry) type _ (wellFormed.nested name composite present) _ _ binding binds _
      held [] result names
    have direct := fun result => @runInitializer_bound registry cast _ wellFormed.nested
      (generations registry) type (.direct composite.signature) (nested_direct fillable.params) _ _
      binding binds [composite.signature] rfl [] result names
    have steps : SteadySteps registry cast near allowed (composite.signature.assignments bound) :=
      fun step member => coerce_steady steady step.name step.type step.caster
        (assignments_hold binds .null member)
    -- Both are rows of assignments now, with the same ones in them.
    simp only [List.flatMap_singleton] at direct
    simp only [combined, direct]
    exact assignAll_perm upward steps
      (fun step => mem_leaf_assignments wellFormed descends agree present held)
      (names_assignments_nodup fillable.params binds) here

end Decode

/-- An initializer of a type writes these attributes for the arguments. -/
def Registry.Writes (registry : Registry) (names : NameTable) (layers : Nat) (name : String)
    (initializer : Initializer) (arguments : Arguments) (attributes : Fields Value) : Prop :=
  ((Decode.runInitializer registry (Decode.castWith registry layers) (Decode.generations registry)
    name initializer arguments []).run names).1 = .ok attributes

namespace Document

/-- In the registry of a document, where parents agree among all that a type inherits from, and
keys are apart among the arguments, the initializer of the type succeeds exactly if its signature by
itself does, and both write the same attributes. -/
theorem initializer_refines_signature {document : Document} {registry : Registry}
    (compiled : document.compile = .ok registry)
    {names : NameTable} (reached : registry.Reachable names) {name : String}
    {composite : Composite} (present : registry.composite name = .ok composite)
    (agree : registry.AncestorsAgree name) {arguments : Arguments}
    (apart : registry.KeysApart names arguments.values) (layers : Nat) :
    ((∃ attributes, registry.Writes names layers name composite.initializer arguments attributes) ↔
      ∃ attributes, registry.Writes names layers name (.direct composite.signature) arguments
        attributes) ∧
    ∀ attributes others,
      registry.Writes names layers name composite.initializer arguments attributes →
        registry.Writes names layers name (.direct composite.signature) arguments others →
          attributes.Perm others := by
  have wellFormed := compile_wellFormed compiled
  have upward := NameTable.near_upward (wellFormed.reachable_sound reached)
    fun key => ∃ other ∈ arguments.values, other.Meets (registry.keyOf names) key
  have settled := arguments.hold_values.mono fun value member =>
    apart.settled (fun key => Iff.rfl) member
  exact Decode.initializer_refines wellFormed (compile_descends compiled)
    (compile_reached compiled) upward (Decode.castWith_steady wellFormed upward layers)
    agree (Registry.found_ok.mp present) settled (NameTable.near_self names _) name

/-- Persons who work, persons who study, and those who do both. -/
def tutors : Document where
  definitions := [
    ("Person", ⟨[
      ("type", .string "object"),
      ("properties", .object [("Name", .object [("type", .string "string")])]),
      ("required", .array [.string "Name"]),
      ("additionalProperties", .bool true)]⟩),
    ("Worker", ⟨[("allOf", .array [
      .object [("$ref", .string "#/$defs/Person")],
      .object [
        ("type", .string "object"),
        ("properties", .object [("Salary", .object [("type", .string "integer")])])]])]⟩),
    ("Student", ⟨[("allOf", .array [
      .object [("$ref", .string "#/$defs/Person")],
      .object [
        ("type", .string "object"),
        ("properties", .object [("Grade", .object [("type", .string "string")])])]])]⟩),
    ("Tutor", ⟨[("allOf", .array [
      .object [("$ref", .string "#/$defs/Worker")],
      .object [("$ref", .string "#/$defs/Student")]])]⟩)]

def ada : Arguments where
  positional := [.string "Ada", .string "12"]
  keyword := [("grade", .string "A"), ("subject", .string "Logic")]

/-- Whether all parents are found to agree, and whether a type is initialized with the arguments, by
its initializer and by its signature. -/
def fillBoth (document : Document) (name : String) (arguments : Arguments) (layers : Nat) :
    Except Error (Bool × Bool × Bool) := do
  let registry ← document.compile
  let composite ← registry.composite name
  let result (initializer : Initializer) :=
    ((Decode.runInitializer registry (Decode.castWith registry layers)
      (Decode.generations registry) name initializer arguments []).run registry.names).1
  return (registry.allShare, (result composite.initializer).toBool,
    (result (.direct composite.signature)).toBool)

theorem fillBoth_ok {document : Document} {name : String} {arguments : Arguments} {layers : Nat}
    {shares whole alone : Bool}
    (filled : fillBoth document name arguments layers = .ok (shares, whole, alone)) :
    ∃ registry composite, document.compile = .ok registry ∧
      registry.composite name = .ok composite ∧ registry.allShare = shares ∧
      (whole = true ↔ ∃ attributes,
        registry.Writes registry.names layers name composite.initializer arguments attributes) ∧
      (alone = true ↔ ∃ attributes,
        registry.Writes registry.names layers name (.direct composite.signature) arguments
          attributes) := by
  obtain ⟨registry, compiled, rest⟩ := Outcomes.bind_ok.mp filled
  obtain ⟨composite, present, last⟩ := Outcomes.bind_ok.mp rest
  cases last
  exact ⟨registry, composite, compiled, present, rfl, Outcomes.toBool_iff, Outcomes.toBool_iff⟩

theorem initializer_refines_signature_tutors :
    ∃ registry composite, tutors.compile = .ok registry ∧
      registry.Reachable registry.names ∧ registry.composite "Tutor" = .ok composite ∧
      registry.AncestorsAgree "Tutor" ∧ registry.KeysApart registry.names ada.values ∧
      (∃ attributes,
        registry.Writes registry.names 2 "Tutor" composite.initializer ada attributes) ∧
      ((∃ attributes,
          registry.Writes registry.names 2 "Tutor" composite.initializer ada attributes) ↔
        ∃ attributes, registry.Writes registry.names 2 "Tutor" (.direct composite.signature) ada
          attributes) ∧
      ∀ attributes others,
        registry.Writes registry.names 2 "Tutor" composite.initializer ada attributes →
          registry.Writes registry.names 2 "Tutor" (.direct composite.signature) ada others →
            attributes.Perm others := by
  have fills : (fillBoth tutors "Tutor" ada 2).toOption = some (true, true, true) := by
    decide +kernel
  have plain : ∀ value ∈ ada.values, value.Plain := by
    intro value member
    simp only [ada, Arguments.values, Fields.values, List.map_cons, List.map_nil, List.cons_append,
      List.nil_append, List.mem_cons, List.not_mem_nil, or_false] at member
    rcases member with rfl | rfl | rfl | rfl <;> exact .string _
  obtain ⟨registry, composite, compiled, present, shares, whole, -⟩ :=
    fillBoth_ok (Outcomes.toOption_iff.mp fills)
  have agree := Registry.allShare_sound shares "Tutor"
  have apart : registry.KeysApart registry.names ada.values := .of_plain plain
  exact ⟨registry, composite, compiled, .start, present, agree, apart, whole.mp rfl,
    initializer_refines_signature compiled .start present agree apart 2⟩

/-- Wrappers with an open part, and two types that have one each, put together. -/
def wrappers : Document where
  definitions := [
    ("Part", ⟨[("type", .string "object"), ("additionalProperties", .bool true)]⟩),
    ("Wrapper", ⟨[
      ("type", .string "object"),
      ("properties", .object [
        ("AB", .object [("type", .string "integer")]),
        ("Part", .object [("$ref", .string "#/$defs/Part")])])]⟩),
    ("Left", ⟨[
      ("type", .string "object"),
      ("properties", .object [("X", .object [("$ref", .string "#/$defs/Wrapper")])])]⟩),
    ("Right", ⟨[
      ("type", .string "object"),
      ("properties", .object [("X", .object [("$ref", .string "#/$defs/Wrapper")])])]⟩),
    ("Both", ⟨[("allOf", .array [
      .object [("$ref", .string "#/$defs/Left")],
      .object [("$ref", .string "#/$defs/Right")]])]⟩)]

/-- A part that has another one inside, to be read as a wrapper. -/
def nestedPart : Arguments where
  keyword := [("x", .object "Part" [("a_b", .integer 1), ("part", .map [("a_b", .integer 2)])])]

/-- The part is read twice. Inside it `a_b` is met as a key, so that the second time its own `a_b`
is no longer written as `AB`, which is what the wrapper declares. -/
theorem combined_respells_part :
    ∃ registry composite signature parents, wrappers.compile = .ok registry ∧
      registry.composite "Both" = .ok composite ∧
      composite.initializer = .combined signature parents ∧ registry.AncestorsAgree "Both" ∧
      (∃ attributes, registry.Writes registry.names 20 "Both" (.direct composite.signature)
        nestedPart attributes) ∧
      ¬∃ attributes, registry.Writes registry.names 20 "Both" composite.initializer nestedPart
        attributes := by
  have fills : (fillBoth wrappers "Both" nestedPart 20).toOption = some (true, false, true) := by
    decide +kernel
  obtain ⟨registry, composite, compiled, present, shares, whole, alone⟩ :=
    fillBoth_ok (Outcomes.toOption_iff.mp fills)
  have fails : ¬∃ attributes, registry.Writes registry.names 20 "Both" composite.initializer
      nestedPart attributes := fun succeeds => Bool.false_ne_true (whole.mpr succeeds)
  cases shape : composite.initializer with
  | direct signature =>
    have same : composite.signature = signature := by
      rw [Composite.signature, shape, Initializer.signature]
    rw [shape, ← same] at fails
    exact absurd (alone.mp rfl) fails
  | combined signature parents =>
    exact ⟨registry, composite, signature, parents, compiled, present, shape,
      Registry.allShare_sound shares "Both", alone.mp rfl, fails⟩

end Document

end TypedSchema
