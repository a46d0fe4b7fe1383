import TypedSchema.Proofs.Decode.Items
import TypedSchema.Proofs.DecodeTermination

/-!
How lists are coerced. A list all of whose items are of the type is left as it is; in any other list
each item is cast, also those that are of the type. These come out as they were if they can be cast
at all, which null and what a polymorph does not take cannot.
-/

namespace TypedSchema

/-- Lists with such items are of the type, and besides them at most null. -/
def TypeExpr.IsListOf (type item : TypeExpr) : Prop :=
  type = .list item ∨ type = .optional (.list item)

/-- The caster takes whatever data is of the type: null is not of it, or taken too, and there is no
polymorph, which takes maps alone. -/
inductive TakesOwn : TypeExpr → Caster → Prop where
  | identity (type : TypeExpr) : TakesOwn type .identity
  | scalar (type : Scalar) : TakesOwn (.scalar type) (.scalar type)
  | list {item : TypeExpr} {caster : Caster} (inner : TakesOwn item caster) :
    TakesOwn (.list item) (.list caster)
  | enumeration (name : String) : TakesOwn (.enumeration name) (.enumeration name)
  | composite (name : String) : TakesOwn (.composite name) (.composite name)

namespace Registry

open Decode

/-- Values are coerced so: for a property of a composite type, or for its further keys. -/
inductive Coerces (registry : Registry) : TypeExpr → Caster → Prop where
  | property {name key : String} {composite : Composite} {property : Property}
    (present : Fields.get? registry.composites name = some composite)
    (declared : Fields.get? composite.properties key = some property) :
    Coerces registry property.type property.caster
  | catchAll {name : String} {composite : Composite} {way : CatchAll}
    (present : Fields.get? registry.composites name = some composite)
    (takes : composite.catchAll = some way) : Coerces registry way.type way.caster

/-- A value can be cast. -/
def Casts (registry : Registry) (names : NameTable) (caster : Caster) (value : Value) : Prop :=
  ∃ result, ((registry.cast caster value).run names).1 = .ok result

/-- What a value becomes on its own: it stays if it is of the type, and is cast if not. -/
def Becomes (registry : Registry) (names : NameTable) (type : TypeExpr) (caster : Caster)
    (value result : Value) : Prop :=
  if registry.conforms value type then result = value
  else ((registry.cast caster value).run names).1 = .ok result

variable {registry : Registry} {names : NameTable} {type item : TypeExpr} {caster : Caster}

theorem Coerces.fits (wellFormed : registry.WellFormed) (coerces : registry.Coerces type caster) :
    Fits True type caster := by
  cases coerces with
  | @property name key composite property present declared =>
    exact ((wellFormed.composites name composite present).2.properties key property
      declared).fits
  | @catchAll name composite way present takes =>
    exact (wellFormed.composites name composite present).2.fits way takes

theorem Coerces.known (closed : registry.Closed) (coerces : registry.Coerces type caster) :
    caster.Known registry := by
  cases coerces with
  | @property name key composite property present declared =>
    exact (closed.properties name composite present property
      (Fields.value_mem (Fields.mem_of_get? declared))).2
  | @catchAll name composite way present takes =>
    exact (closed.catchAlls name composite present way takes).2

theorem fits_items (lists : type.IsListOf item) (fits : Fits True type (.list caster)) :
    Fits True item caster := by
  rcases lists with rfl | rfl
  · cases fits with
    | list inner => exact inner
  · cases fits with
    | optional inner =>
      cases inner with
      | list inner => exact inner

theorem conforms_items (lists : type.IsListOf item) {items : List Value} :
    registry.conforms (.list items) type = true ↔
      ∀ value ∈ items, registry.conforms value item = true := by
  rcases lists with rfl | rfl
  · simp [conforms]
  · simp [conforms, Value.isNull]

/-- A list is left as it is if all of its items are of the type. -/
theorem coerce_conforming {cast : Cast} (lists : type.IsListOf item) {items : List Value}
    (all : ∀ value ∈ items, registry.conforms value item = true) (argument : String) :
    coerce registry cast argument type caster (.list items) = pure (.list items) := by
  rw [coerce, (conforms_items lists).mpr all, Bool.or_true, if_pos rfl]

section

variable (wellFormed : registry.WellFormed) (closed : registry.Closed)
  (reached : registry.Reached) (sound : names.Sound) {items : List Value}
  (plain : ∀ value ∈ items, value.Plain)

include wellFormed closed reached sound plain

/-- The items of a list are cast as they would be on their own. -/
theorem castItems_gives (known : caster.Known registry) {fuel : Nat}
    (enough : ∀ value ∈ items, Suffices registry fuel caster value) (index : Nat)
    {results : List Value} :
    ((castItems (castWith registry fuel) caster index items).run names).1 = .ok results ↔
      List.Forall₂ (fun value result => ((registry.cast caster value).run names).1 = .ok result)
        items results := by
  have upward := Upward.sound_tables fun _ => True
  have steady := castWith_steady wellFormed upward fuel
  have settled : ∀ value ∈ items, value.Settled registry NameTable.Sound fun _ => True :=
    fun value member => (plain value member).objectless.settled fun _ _ => trivial
  rw [Decode.castItems_gives upward steady settled sound sound]
  refine Lists.related_congr fun value member result => ?_
  rw [cast, castFor, gives_adapt, castWith_eq wellFormed closed reached known (enough value member)
    (.of_layers registry caster value)]

theorem cast_list_gives (known : caster.Known registry) {result : Value} :
    ((registry.cast (.list caster) (.list items)).run names).1 = .ok result ↔
      ∃ results, result = .list results ∧ List.Forall₂
        (fun value result => ((registry.cast caster value).run names).1 = .ok result) items
          results := by
  obtain ⟨fuel, next, enough⟩ := castFor_succ registry (.list caster) (.list items)
  rw [cast, gives_adapt, next, castLayer]
  simp only [gives_bind, gives_adapt,
    castItems_gives wellFormed closed reached sound plain known fun value => enough.item]
  constructor
  · rintro ⟨results, each, made⟩
    exact ⟨results, (Except.ok.inj made).symm, each⟩
  · rintro ⟨results, rfl, each⟩
    exact ⟨results, each, rfl⟩

/-- All items of any other list are cast. -/
theorem coerce_casting (lists : type.IsListOf item) (known : caster.Known registry)
    (some : ¬∀ value ∈ items, registry.conforms value item = true) {fuel : Nat}
    (enough : layers registry (.list caster) (.list items) ≤ fuel) (argument : String)
    {result : Value} :
    ((coerce registry (castWith registry fuel) argument type (.list caster) (.list items)).run
        names).1 = .ok result ↔
      ∃ results, result = .list results ∧ List.Forall₂
        (fun value result => ((registry.cast caster value).run names).1 = .ok result) items
          results := by
  have casted : ¬((Value.list items).isNull || registry.conforms (.list items) type) = true := by
    rwa [show (Value.list items).isNull = false from rfl, Bool.false_or, conforms_items lists]
  have first := Suffices.of_layers registry (.list caster) (.list items)
  rw [← cast_list_gives wellFormed closed reached sound plain known, coerce, if_neg casted, cast,
    gives_adapt, gives_adapt, castFor,
    castWith_eq wellFormed closed reached (.list known) (first.mono enough) first]

end

theorem becomes_some {value : Value} :
    (∃ result, registry.Becomes names type caster value result) ↔
      registry.conforms value type = true ∨ registry.Casts names caster value := by
  unfold Becomes Casts
  split
  · rename_i conforms
    simp [conforms]
  · rename_i casted
    simp [casted]

theorem casts_of_conforms (wellFormed : registry.WellFormed) (closed : registry.Closed)
    (reached : registry.Reached) (sound : names.Sound) (takes : TakesOwn type caster)
    (known : caster.Known registry) {value : Value} (plain : value.Plain)
    (conforms : registry.conforms value type = true) : registry.Casts names caster value := by
  induction takes generalizing value with
  | identity type => exact ⟨value, rfl⟩
  | scalar type =>
    obtain ⟨fuel, next, -⟩ := castFor_succ registry (.scalar type) value
    refine ⟨value, gives_adapt.mpr (run_fst_ok.mpr ⟨names, ?_⟩)⟩
    rw [next]
    exact castLayer_scalar_ok.mpr ⟨castScalar_of_conforms conforms, rfl⟩
  | list inner ih =>
    cases known with
    | list known =>
      cases plain with
      | @list items plain =>
        rw [Registry.conforms, List.all_eq_true] at conforms
        obtain ⟨results, each⟩ := Lists.exists_results fun item member =>
          ih known (plain item member) (conforms item member)
        exact ⟨.list results, (cast_list_gives wellFormed closed reached sound plain known).mpr
          ⟨results, rfl, each⟩⟩
      | _ => cases conforms
  | enumeration name => cases plain <;> cases conforms
  | composite name => cases plain <;> cases conforms

/-- Where an item is not of the type and yet all can be cast, an item becomes what it is cast to. -/
theorem becomes_iff (fits : Fits True item caster) {items : List Value}
    (plain : ∀ value ∈ items, value.Plain)
    (some : ¬∀ value ∈ items, registry.conforms value item = true)
    (casts : ∀ value ∈ items, registry.Casts names caster value) {value : Value}
    (member : value ∈ items) (result : Value) :
    registry.Becomes names item caster value result ↔
      ((registry.cast caster value).run names).1 = .ok result := by
  have ran : ∀ {value result}, ((registry.cast caster value).run names).1 = .ok result →
      ∃ after, (castFor registry caster value caster value).run names = (.ok result, after) :=
    fun given => run_fst_ok.mp (gives_adapt.mp given)
  obtain ⟨other, given⟩ := casts value member
  unfold Becomes
  split
  · rename_i conforms
    -- Some item is cast and not of the type, so not whatever the caster takes is of the type.
    have notAll : ¬TakesAll registry caster item := fun takes => some fun value member => by
      obtain ⟨result, given⟩ := casts value member
      obtain ⟨after, ran⟩ := ran given
      exact takes value result _ names after ran
    obtain ⟨after, ran⟩ := ran given
    have kept := (cast_kept fits (plain value member) ran conforms).resolve_right notAll
    rw [given, kept, Except.ok.injEq, eq_comm]
  · exact Iff.rfl

/-- A list of data becomes the list of what its items become, if all of them are of the type or all
can be cast. -/
theorem coerce_gives (wellFormed : registry.WellFormed) (closed : registry.Closed)
    (reached : registry.Reached) (sound : names.Sound) {items : List Value}
    (plain : ∀ value ∈ items, value.Plain) (lists : type.IsListOf item)
    (coerces : registry.Coerces type (.list caster)) {fuel : Nat}
    (enough : layers registry (.list caster) (.list items) ≤ fuel) (argument : String)
    (result : Value) :
    ((coerce registry (castWith registry fuel) argument type (.list caster) (.list items)).run
        names).1 = .ok result ↔
      ∃ results, result = .list results ∧
        List.Forall₂ (registry.Becomes names item caster) items results ∧
        ((∀ value ∈ items, registry.conforms value item = true) ∨
          ∀ value ∈ items, registry.Casts names caster value) := by
  have fits : Fits True item caster := fits_items lists (coerces.fits wellFormed)
  have known : caster.Known registry := by
    cases coerces.known closed with
    | list inner => exact inner
  -- Only a list that is not all of the type is cast.
  by_cases all : ∀ value ∈ items, registry.conforms value item = true
  · have stays : ∀ value ∈ items, ∀ result,
        registry.Becomes names item caster value result ↔ result = value :=
      fun value member result => by rw [Becomes, if_pos (all value member)]
    rw [coerce_conforming lists all]
    constructor
    · intro given
      cases given
      have each : List.Forall₂ (registry.Becomes names item caster) items items :=
        List.forall₂_same.mpr fun value member => (stays value member value).mpr rfl
      exact ⟨items, rfl, each, .inl all⟩
    · rintro ⟨results, rfl, each, -⟩
      have same : results = items := Lists.eq_of_related each fun value member result becomes =>
        (stays value member result).mp becomes
      rw [same]
      rfl
  · have alike : (∀ value ∈ items, registry.Casts names caster value) → ∀ {results},
        (List.Forall₂ (registry.Becomes names item caster) items results ↔ List.Forall₂
          (fun value result => ((registry.cast caster value).run names).1 = .ok result) items
            results) := fun casts =>
      Lists.related_congr fun value member => becomes_iff fits plain all casts member
    rw [coerce_casting wellFormed closed reached sound plain lists known all enough]
    constructor
    · rintro ⟨results, rfl, each⟩
      have casts : ∀ value ∈ items, registry.Casts names caster value := fun value member => by
        obtain ⟨result, -, given⟩ := Lists.result_of_source each member
        exact ⟨result, given⟩
      exact ⟨results, rfl, (alike casts).mpr each, .inr casts⟩
    · rintro ⟨results, rfl, each, either⟩
      exact ⟨results, rfl, (alike (either.resolve_left all)).mp each⟩

end Registry

namespace Document

open Decode Registry

/-- Coercing a list of data gives the list of what its items become on their own, and it does so if
all items are of the type or all can be cast. So where no item is refused that is of the type, it
succeeds exactly if each item is of the type or can be cast; and none is if the caster takes
whatever is of the type. -/
theorem coerce_items {document : Document} {registry : Registry}
    (compiled : document.compile = .ok registry)
    {names : NameTable} (reachable : registry.Reachable names) {type item : TypeExpr}
    {caster : Caster} (coerces : registry.Coerces type (.list caster)) (lists : type.IsListOf item)
    (items : List Json) {fuel : Nat}
    (enough : layers registry (.list caster) (.ofJson (.array items)) ≤ fuel) (argument : String) :
    (∀ result, ((coerce registry (castWith registry fuel) argument type (.list caster)
          (.ofJson (.array items))).run names).1 = .ok result ↔
        ∃ results, result = .list results ∧
          List.Forall₂ (registry.Becomes names item caster) (items.map .ofJson) results ∧
          ((∀ json ∈ items, registry.conforms (.ofJson json) item = true) ∨
            ∀ json ∈ items, registry.Casts names caster (.ofJson json))) ∧
      ((∀ json ∈ items, registry.conforms (.ofJson json) item = true →
          registry.Casts names caster (.ofJson json)) →
        ((∃ result, ((coerce registry (castWith registry fuel) argument type (.list caster)
            (.ofJson (.array items))).run names).1 = .ok result) ↔
          ∀ json ∈ items, registry.conforms (.ofJson json) item = true ∨
            registry.Casts names caster (.ofJson json))) ∧
      (TakesOwn item caster → ∀ json, registry.conforms (.ofJson json) item = true →
        registry.Casts names caster (.ofJson json)) := by
  have wellFormed := compile_wellFormed compiled
  have closed := compile_closed compiled
  have reached := compile_reached compiled
  have sound := wellFormed.reachable_sound reachable
  have plain : ∀ value ∈ items.map Value.ofJson, value.Plain :=
    List.forall_mem_map.mpr fun json _ => Value.ofJson_plain json
  rw [Value.ofJson, Value.ofJsonItems_eq] at enough ⊢
  have gives :=
    coerce_gives wellFormed closed reached sound plain lists coerces enough argument
  simp only [List.forall_mem_map] at gives
  refine ⟨gives, fun taken => ?_, fun takes json conforms => ?_⟩
  · simp only [gives]
    constructor
    · rintro ⟨_, results, rfl, -, all | casts⟩ json member
      · exact .inl (all json member)
      · exact .inr (casts json member)
    · intro each
      have casts : ∀ json ∈ items, registry.Casts names caster (.ofJson json) :=
        fun json member => (each json member).elim (taken json member) id
      obtain ⟨results, becomes⟩ := Lists.exists_results
        (List.forall_mem_map.mpr fun json member => becomes_some.mpr (each json member))
      exact ⟨_, results, rfl, becomes, .inr casts⟩
  · cases coerces.known closed with
    | list known =>
      exact casts_of_conforms wellFormed closed reached sound takes known (Value.ofJson_plain json)
        conforms

/-- A property with lists in the registry of a document. -/
structure ListProperty where
  registry : Registry
  item : TypeExpr
  caster : Caster

namespace ListProperty

/-- What the property makes of a list, before anything is decoded. -/
def coerced (property : ListProperty) (items : List Json) : Except Error Value :=
  let caster := Caster.list property.caster
  let value := Value.ofJson (.array items)
  ((coerce property.registry (castFor property.registry caster value) "items" (.list property.item)
    caster value).run property.registry.names).1

end ListProperty

def listProperty? (document : Document) (name key : String) : Except Error ListProperty := do
  let registry ← document.compile
  let composite ← registry.composite name
  match Fields.get? composite.properties key with
  | some ⟨_, _, .list caster, .list item, _⟩ => return ⟨registry, item, caster⟩
  | _ => .error (.classNotFound key)

theorem listProperty?_ok {document : Document} {name key : String} {found : ListProperty}
    (ran : listProperty? document name key = .ok found) :
    document.compile = .ok found.registry ∧
      found.registry.Coerces (.list found.item) (.list found.caster) := by
  obtain ⟨registry, compiled, ran⟩ := Outcomes.bind_ok.mp ran
  obtain ⟨composite, present, ran⟩ := Outcomes.bind_ok.mp ran
  split at ran
  · rename_i declared
    cases ran
    exact ⟨compiled, .property (found_ok.mp present) declared⟩
  · cases ran

/-- Samples with readings, some of which may be null. -/
def readings : Document where
  definitions := [
    ("Sample", ⟨[
      ("type", .string "object"),
      ("properties", .object [
        ("Readings", .object [
          ("type", .string "array"),
          ("items", .object [
            ("oneOf", .array [
              .object [("type", .string "integer")], .object [("type", .string "null")]])])])]),
      ("required", .array [.string "Readings"])]⟩)]

theorem coerce_items_readings :
    ∃ property : ListProperty, readings.compile = .ok property.registry ∧
      property.registry.Reachable property.registry.names ∧
      property.registry.Coerces (.list property.item) (.list property.caster) ∧
      ∃ results, property.coerced [.string "1", .integer 2] = .ok (.list results) ∧
        List.Forall₂
          (property.registry.Becomes property.registry.names property.item property.caster)
          ([.string "1", .integer 2].map .ofJson) results := by
  have given : ∃ property ∈ (listProperty? readings "Sample" "readings").toOption,
      (property.coerced [.string "1", .integer 2]).toBool = true := by
    decide +kernel
  obtain ⟨property, given, succeeds⟩ := given
  obtain ⟨compiled, coerces⟩ := listProperty?_ok (Outcomes.toOption_iff.mp given)
  obtain ⟨result, coerced⟩ := Outcomes.toBool_iff.mp succeeds
  obtain ⟨results, rfl, each, -⟩ := (coerce_items compiled .start coerces (.inl rfl)
    [.string "1", .integer 2] (Nat.le_refl _) "items").1 result |>.mp coerced
  exact ⟨property, compiled, .start, coerces, results, coerced, each⟩

/-- Null is refused next to a reading that is written as a text, though each is accepted on its
own. -/
theorem coerce_refuses_null :
    ∃ property : ListProperty, readings.compile = .ok property.registry ∧
      property.registry.Coerces (.list property.item) (.list property.caster) ∧
      (∀ json ∈ [.null, .string "1"],
        property.registry.conforms (.ofJson json) property.item = true ∨
          property.registry.Casts property.registry.names property.caster (.ofJson json)) ∧
      (∀ json ∈ [.null, .string "1"], ∃ result, property.coerced [json] = .ok result) ∧
      ¬∃ result, property.coerced [.null, .string "1"] = .ok result := by
  have refused : ∃ property ∈ (listProperty? readings "Sample" "readings").toOption,
      (property.registry.conforms (.ofJson .null) property.item = true ∧
        ((property.registry.cast property.caster (.ofJson (.string "1"))).run
          property.registry.names).1.toBool = true) ∧
      (∀ json ∈ [.null, .string "1"], (property.coerced [json]).toBool = true) ∧
      ¬(property.coerced [.null, .string "1"]).toBool = true := by
    decide +kernel
  obtain ⟨property, given, ⟨conforms, casts⟩, alone, refused⟩ := refused
  obtain ⟨compiled, coerces⟩ := listProperty?_ok (Outcomes.toOption_iff.mp given)
  refine ⟨property, compiled, coerces, ?_,
    fun json member => Outcomes.toBool_iff.mp (alone json member),
    fun accepted => refused (Outcomes.toBool_iff.mpr accepted)⟩
  intro json member
  simp only [List.mem_cons, List.not_mem_nil, or_false] at member
  rcases member with rfl | rfl
  · exact .inl conforms
  · exact .inr (Outcomes.toBool_iff.mp casts)

end Document

end TypedSchema
