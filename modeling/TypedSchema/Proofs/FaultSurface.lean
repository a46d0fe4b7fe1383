import TypedSchema.Proofs.Decode.Faults

/-!
What can go wrong once a document has compiled. Every name in its registry leads somewhere, so data
that is decoded, instantiated or discriminated either gives a value or fails for a reason of its
own: its type, a key or a value. No name is ever missing, and nothing is cut off.
-/

namespace TypedSchema

namespace Decode

variable {registry : Registry} {cast : Cast} {layers : Nat}

/-- The layers are enough for any caster that a composite type declares. -/
def Ready (registry : Registry) (layers : Nat) (value : Value) : Prop :=
  value.isNull = false → ∀ caster : Caster, caster.height ≤ casterHeight registry →
    Suffices registry layers caster value

/-- The cast fails with faults only wherever its layers are enough. -/
def FaultyWithin (registry : Registry) (layers : Nat) (cast : Cast) : Prop :=
  ∀ caster value, caster.Known registry → Suffices registry layers caster value →
    FailsWith Refusal.IsFault (cast caster value)

section

variable (wellFormed : registry.WellFormed) (closed : registry.Closed)
  (spec : FaultyWithin registry layers cast)

include spec

theorem castItems_fails {caster : Caster} (known : caster.Known registry) {items : List Value}
    (each : ∀ item ∈ items, Suffices registry layers caster item) (index : Nat) :
    FailsWith Error.IsFault (castItems cast caster index items) := by
  induction items generalizing index with
  | nil => exact .pure []
  | cons item rest ih =>
    have first := spec caster item known (each item List.mem_cons_self)
    refine .bind (.adapt first fun refusal fault => (fault.toError _).under _) fun _ _ _ _ => ?_
    refine .bind (ih (fun other member => each other (List.mem_cons_of_mem _ member)) _)
      fun _ _ _ _ => ?_
    exact .pure _

theorem discriminate_fails {dispatcher : Dispatcher Caster}
    (known : ∀ branch ∈ dispatcher.branches, branch.caster.Known registry) {data : Fields Value}
    (enough : ∀ branch ∈ dispatcher.branches, Suffices registry layers branch.caster (.map data)) :
    FailsWith Error.IsFault (discriminate cast dispatcher data) := by
  refine .bind (.except fun error => Dispatcher.select_fails) fun branch names after selected => ?_
  rw [run_except, outcome_eq_iff] at selected
  have listed := select_mem selected.1
  have inner := spec branch.caster (.map data) (known branch listed) (enough branch listed)
  exact .adapt inner fun refusal fault => fault.toError _

include wellFormed closed

/-- Every composite type can be filled from values that the layers are enough for. -/
theorem fillable_ready {name : String} {composite : Composite}
    (present : Fields.get? registry.composites name = some composite) :
    Fillable registry cast (Ready registry layers) (FailsWith Error.IsFault)
      composite.signature := by
  refine fillable wellFormed present nofun (fun property member value ready => ?_)
    fun way takes key value ready => ?_
  · have known := (closed.properties name composite present property member).2
    exact coerce_fails fun notNull => spec property.caster value known
      (ready notNull _ (height_of_property present member))
  · have known := (closed.catchAlls name composite present way takes).2
    exact coerce_fails fun notNull => spec way.caster value known
      (ready notNull _ (height_of_catchAll present takes))

theorem fromMap_fails (reached : registry.Reached) {name owner : String} {composite : Composite}
    (present : Fields.get? registry.composites name = some composite) {value : Value}
    (enough : Suffices registry (layers + 1) (.composite owner) value) {entries : Fields Value}
    (lower : ∀ entry ∈ entries, entry.2.rank < value.rank) :
    FailsWith Error.IsFault (fromEntries registry cast composite entries) :=
  fromEntries_fails (fun _ _ => fillable_ready wellFormed closed spec) reached present
    fun entry member _ _ => enough.inside (lower entry member)

/-- An object of another type is expanded to plain data, which is nested no deeper. -/
theorem fromObject_fails (reached : registry.Reached) {name owner : String} {composite : Composite}
    (present : Fields.get? registry.composites name = some composite) {type : String}
    {attributes : Fields Value}
    (enough : Suffices registry (layers + 1) (.composite owner) (.object type attributes)) :
    FailsWith Error.IsFault (do
      fromEntries registry cast composite (← plainEntries registry type attributes)) := by
  refine .bind (.lift _) fun entries names after read => ?_
  rw [run_lift, outcome_eq_iff] at read
  obtain ⟨same, -⟩ := read
  cases same
  exact fromMap_fails wellFormed closed spec reached present enough
    fun entry => Value.rank_lt_of_toEntries

theorem castComposite_fails (reached : registry.Reached) {name : String} {composite : Composite}
    (present : Fields.get? registry.composites name = some composite) {value : Value}
    (enough : Suffices registry (layers + 1) (.composite name) value) :
    FailsWith Refusal.IsFault (castComposite registry cast name value) := by
  have lookup : registry.compositeNamed name = .ok composite := by
    rw [wellFormed.compositeNamed, Registry.composite, Registry.found_ok.mpr present]
  cases value with
  | map entries =>
    simp only [castComposite, lookup, except_bind]
    have inner := fromMap_fails wellFormed closed spec reached present enough
      fun entry member => Nat.lt_succ_of_le (rank_le_of_entry member)
    exact .adapt inner fun error => id
  | object type attributes =>
    simp only [castComposite, lookup, except_bind]
    split
    · exact .pure _
    · exact .adapt (fromObject_fails wellFormed closed spec reached present enough) fun error => id
  | _ => exact .throw trivial

/-- One layer more is enough for one caster more. -/
theorem castLayer_fails (reached : registry.Reached) :
    FaultyWithin registry (layers + 1) (castLayer registry cast) := by
  intro caster value known enough
  cases known with
  | identity => exact .pure value
  | scalar type =>
    simp only [castLayer]
    split
    · exact .pure _
    · exact .throw trivial
  | @list item inner =>
    cases value with
    | list items =>
      have each := castItems_fails spec inner (fun value => enough.item) 0
      exact .bind (.adapt each fun error => id) fun _ _ _ _ => .pure _
    | _ => exact .throw trivial
  | enumeration present =>
    obtain ⟨enumeration, found⟩ := present.described
    simp only [castLayer, Registry.enumeration, Registry.found_ok.mpr found]
    split
    · exact .pure _
    · exact .throw trivial
  | composite present =>
    obtain ⟨composite, found⟩ := present.described
    exact castComposite_fails wellFormed closed spec reached found enough
  | polymorph branches =>
    cases value with
    | object type attributes =>
      simp only [castLayer]
      split
      · exact .pure _
      · exact .throw trivial
    | map data =>
      have inner := discriminate_fails spec branches fun branch => enough.branch
      exact .adapt inner fun error => id
    | _ => exact .throw trivial

end

/-- Casts with enough layers fail with faults only. -/
theorem castWith_fails (wellFormed : registry.WellFormed) (closed : registry.Closed)
    (reached : registry.Reached) (layers : Nat) :
    FaultyWithin registry layers (castWith registry layers) := by
  induction layers with
  | zero =>
    intro caster value _ enough
    have positive := caster.height_pos
    unfold Suffices at enough
    omega
  | succ layers ih => exact castLayer_fails wellFormed closed ih reached

end Decode

namespace Registry

open Decode

variable {registry : Registry} (wellFormed : registry.WellFormed) (closed : registry.Closed)
  (reached : registry.Reached)

include wellFormed closed reached

theorem convert_fails {name : String} {composite : Composite}
    (present : Fields.get? registry.composites name = some composite) (value : Value) :
    FailsWith Error.IsFault (registry.convert composite value) := by
  have spec := castWith_fails wellFormed closed reached
    (layers registry (.composite composite.name) value)
  have enough := (Suffices.of_layers registry (.composite composite.name) value).succ
  cases value with
  | map entries =>
    exact fromMap_fails wellFormed closed spec reached present enough
      fun entry member => Nat.lt_succ_of_le (rank_le_of_entry member)
  | object type attributes =>
    simp only [convert]
    split
    · exact .pure _
    · exact fromObject_fails wellFormed closed spec reached present enough
  | _ => exact .throw trivial

theorem decode_fails {name : String} {composite : Composite}
    (named : registry.compositeNamed name = .ok composite) (value : Value) :
    FailsWith Error.IsFault (registry.decode name value) := by
  have present := named
  rw [wellFormed.compositeNamed, Registry.composite, found_ok] at present
  rw [wellFormed.decode_eq present]
  exact convert_fails wellFormed closed reached present value

theorem construct_fails {name : String} {composite : Composite}
    (named : registry.compositeNamed name = .ok composite) (arguments : Arguments) :
    FailsWith Error.IsFault (registry.construct name arguments) := by
  have present := named
  rw [wellFormed.compositeNamed, Registry.composite, found_ok] at present
  rw [construct, named, except_bind]
  -- The layers are those of the cast of a list of all arguments, each of which is of lower rank.
  generalize whole : arguments.positional ++ Fields.values arguments.keyword = values
  have spec := castWith_fails wellFormed closed reached
    (layers registry (.composite name) (.list values))
  have ready : ∀ value ∈ values,
      Ready registry (layers registry (.composite name) (.list values)) value :=
    fun value member _ _ => (Suffices.of_layers registry (.composite name) _).succ.inside
      (Nat.lt_succ_of_le (rank_le_of_item member))
  refine Decode.construct_fails (fun _ _ => fillable_ready wellFormed closed spec) reached present
    ⟨fun value member => ready value ?_, fun entry member => ready entry.2 ?_⟩
  · exact whole ▸ List.mem_append_left _ member
  · exact whole ▸ List.mem_append_right _ (Fields.value_mem member)

theorem cast_fails {caster : Caster} (known : caster.Known registry) (value : Value) :
    FailsWith Error.IsFault (registry.cast caster value) := by
  have inner := castWith_fails wellFormed closed reached (layers registry caster value) caster value
    known (.of_layers registry caster value)
  exact .adapt inner fun refusal fault => fault.toError _

theorem instantiate_fails {name : String} {entry : Entry}
    (registered : registry.entry name = .ok entry) (value : Value) :
    FailsWith Error.IsFault (registry.instantiate name value) := by
  have known := (closed.entries name entry (found_ok.mp registered)).2
  rw [instantiate, registered, except_bind]
  exact cast_fails wellFormed closed reached known value

theorem discriminate_fails {name : String} {entry : Entry}
    (registered : registry.entry name = .ok entry) (value : Value) :
    FailsWith Error.IsFault (registry.discriminate name value) := by
  have known := (closed.entries name entry (found_ok.mp registered)).2
  rw [discriminate, registered, except_bind]
  cases shape : entry.caster with
  | polymorph dispatcher =>
    rw [shape] at known
    cases known with
    | polymorph branches =>
      cases value with
      | map data =>
        have spec := castWith_fails wellFormed closed reached
          (layers registry (.polymorph dispatcher) (.map data))
        have enough := Suffices.of_layers registry (.polymorph dispatcher) (.map data)
        exact Decode.discriminate_fails spec branches fun branch => enough.succ.branch
      | _ => exact .throw trivial
  | _ => exact .throw trivial

end Registry

/-- Every run gives a value or ends in a fault. -/
def Decode.GivesOrFaults {α : Type} (action : Decode α) : Prop :=
  ∀ names, (∃ value, (action.run names).1 = .ok value) ∨
    ∃ error, (action.run names).1 = .error error ∧ error.IsFault

theorem Decode.FailsWith.givesOrFaults {α : Type} {action : Decode α}
    (fails : FailsWith Error.IsFault action) : GivesOrFaults action := by
  intro names
  cases outcome : (action.run names).1 with
  | ok value => exact .inl ⟨value, rfl⟩
  | error error => exact .inr ⟨error, rfl, fails names error _ (Prod.ext outcome rfl)⟩

namespace Document

/-- In the registry of a document every name is known, and whatever JSON is decoded, instantiated or
discriminated with it, whatever was before, either gives a value or fails with a fault. -/
theorem compile_leaves_faults {document : Document} {registry : Registry}
    (compiled : document.compile = .ok registry) :
    registry.Closed ∧
      (∀ name composite, registry.compositeNamed name = .ok composite → ∀ json : Json,
        Decode.GivesOrFaults (registry.decode name (.ofJson json))) ∧
      ∀ name entry, registry.entry name = .ok entry → ∀ json : Json,
        Decode.GivesOrFaults (registry.instantiate name (.ofJson json)) ∧
          Decode.GivesOrFaults (registry.discriminate name (.ofJson json)) := by
  have wellFormed := compile_wellFormed compiled
  have closed := compile_closed compiled
  have reached := compile_reached compiled
  refine ⟨closed, fun name composite named json => ?_, fun name entry registered json => ⟨?_, ?_⟩⟩
  · exact (Registry.decode_fails wellFormed closed reached named _).givesOrFaults
  · exact (Registry.instantiate_fails wellFormed closed reached registered _).givesOrFaults
  · exact (Registry.discriminate_fails wellFormed closed reached registered _).givesOrFaults

/-- Pets of some kinds with their young, cats that have lives besides, and animals by their kind. -/
def animals : Document where
  definitions := [
    ("Kind", ⟨[("enum", .array [.string "Cat", .string "Dog"])]⟩),
    ("Pet", ⟨[
      ("type", .string "object"),
      ("properties", .object [
        ("Kind", .object [("$ref", .string "#/$defs/Kind")]),
        ("Young", .object [
          ("type", .string "array"), ("items", .object [("$ref", .string "#/$defs/Pet")])])])]⟩),
    ("Cat", ⟨[("allOf", .array [
      .object [("$ref", .string "#/$defs/Pet")],
      .object [
        ("type", .string "object"),
        ("properties", .object [("Lives", .object [("type", .string "integer")])])]])]⟩),
    ("Animal", ⟨[
      ("oneOf", .array [.object [("$ref", .string "#/$defs/Cat")]]),
      ("discriminator", .object [
        ("propertyName", .string "Kind"),
        ("mapping", .object [("Cat", .string "#/$defs/Cat")])])]⟩)]

theorem compile_leaves_faults_animals :
    ∃ registry, animals.compile = .ok registry ∧ registry.Closed ∧
      (∀ name composite, registry.compositeNamed name = .ok composite → ∀ json : Json,
        Decode.GivesOrFaults (registry.decode name (.ofJson json))) ∧
      ∀ name entry, registry.entry name = .ok entry → ∀ json : Json,
        Decode.GivesOrFaults (registry.instantiate name (.ofJson json)) ∧
          Decode.GivesOrFaults (registry.discriminate name (.ofJson json)) := by
  have compiles : animals.compile.toBool = true := by decide +kernel
  obtain ⟨registry, compiled⟩ := Outcomes.toBool_iff.mp compiles
  exact ⟨registry, compiled, compile_leaves_faults compiled⟩

end Document

end TypedSchema
