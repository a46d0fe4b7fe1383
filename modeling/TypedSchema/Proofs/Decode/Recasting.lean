import TypedSchema.Proofs.Decode.Dispatching

/-!
Casting again what a cast gave, after it has been written and read. A scalar, a member and a list
are found again, and what already is of a type is what it was cast to.
-/

namespace TypedSchema

namespace Registry

/-- The maps in plain data that are decoded as objects when the data is cast, each with the name of
the composite type that it is decoded by. -/
inductive Decodes (registry : Registry) :
    Caster → Value → String → Fields Value → Prop where
  | self {name : String} {entries : Fields Value} :
    Decodes registry (.composite name) (.map entries) name entries
  | item {caster : Caster} {items : List Value} {item : Value} {name : String}
    {entries : Fields Value} (member : item ∈ items)
    (inner : Decodes registry caster item name entries) :
    Decodes registry (.list caster) (.list items) name entries
  | branch {dispatcher : Dispatcher Caster} {data : Fields Value} {branch : Branch Caster}
    {name : String} {entries : Fields Value} (selected : dispatcher.select data = .ok branch)
    (inner : Decodes registry branch.caster (.map data) name entries) :
    Decodes registry (.polymorph dispatcher) (.map data) name entries
  | declared {owner key : String} {composite : Composite} {property : Property}
    {members : Fields Value} {value : Value} {name : String} {entries : Fields Value}
    (present : Fields.get? registry.composites owner = some composite)
    (member : (key, value) ∈ members)
    (declares : Fields.get? composite.properties (composite.attributeOf key) = some property)
    (casted : (value.isNull || registry.conforms value property.type) = false)
    (inner : Decodes registry property.caster value name entries) :
    Decodes registry (.composite owner) (.map members) name entries
  | undeclared {owner key : String} {composite : Composite} {catchAll : CatchAll}
    {members : Fields Value} {value : Value} {name : String} {entries : Fields Value}
    (present : Fields.get? registry.composites owner = some composite)
    (member : (key, value) ∈ members)
    (undeclared : Fields.get? composite.properties (composite.attributeOf key) = none)
    (takes : composite.catchAll = some catchAll)
    (casted : (value.isNull || registry.conforms value catchAll.type) = false)
    (inner : Decodes registry catchAll.caster value name entries) :
    Decodes registry (.composite owner) (.map members) name entries

/-- Every key of every object that is decoded comes back from its attribute. -/
def KeysReturn (registry : Registry) (names : NameTable) (caster : Caster) (value : Value) : Prop :=
  ∀ name entries, registry.Decodes caster value name entries →
    ∀ composite, Fields.get? registry.composites name = some composite →
      ∀ key ∈ Fields.names entries, composite.returned (names.of name) key = key

/-! ## Maps that conform -/

mutual
/-- A type that a map is of already takes anything. -/
theorem conforms_of_map {registry : Registry} {data : Fields Value} :
    {type : TypeExpr} → registry.conforms (.map data) type = true →
      ∀ value, registry.conforms value type = true
  | .any, _, _ => by rw [conforms]
  | .scalar type, held, _ => by cases type <;> cases held
  | .list _, held, _ => by cases held
  | .union members, held, value => by
    rw [conforms] at held ⊢
    exact conformsAny_of_map held value
  | .optional inner, held, value => by
    rw [conforms] at held
    rw [conforms, conforms_of_map held value, Bool.or_true]
  | .enumeration _, held, _ => by cases held
  | .composite _, held, _ => by cases held

theorem conformsAny_of_map {registry : Registry} {data : Fields Value} :
    {members : List TypeExpr} → registry.conformsAny (.map data) members = true →
      ∀ value, registry.conformsAny value members = true
  | [], held, _ => by cases held
  | type :: rest, held, value => by
    rw [conformsAny, Bool.or_eq_true_iff] at held ⊢
    exact held.imp (fun first => conforms_of_map first value)
      fun later => conformsAny_of_map later value
end

end Registry

/-! ## Members -/

namespace Enumeration

theorem byId?_of_lookup? {enumeration : Enumeration} {value : Value} {member : Member}
    (lifted : value.Lifted) (found : enumeration.lookup? value = some member) :
    ∃ id, enumeration.byId? id = some member := by
  have plain := lifted.plain
  unfold lookup? at found
  split at found
  · cases plain
  · obtain ⟨id, -, byId⟩ := Option.bind_eq_some_iff.mp found
    exact ⟨id, byId⟩
  · obtain ⟨id, -, byId⟩ := Option.bind_eq_some_iff.mp found
    exact ⟨id, byId⟩

/-- A member is found again by what it is written as. -/
theorem lookup?_again {enumeration : Enumeration} (own : enumeration.WellFormed)
    (literals : ∀ member ∈ Fields.values enumeration.members, ∀ literal,
      member.literal = some literal → Registry.IsKey literal)
    {value data : Value} {member : Member} (lifted : value.Lifted)
    (found : enumeration.lookup? value = some member) {keyOf : KeyOf}
    (rereads : Value.Rereads keyOf (.member member) data) :
    enumeration.lookup? data = some member := by
  obtain ⟨id, byId⟩ := byId?_of_lookup? lifted found
  obtain ⟨rfl, name, listed⟩ := byId?_listed own.distinct byId
  obtain ⟨json, encoded, rfl⟩ := rereads
  rw [Value.toJson, Value.memberToJson] at encoded
  cases plain : member.literal with
  | none =>
    rw [plain] at encoded
    cases encoded
    exact byId
  | some literal =>
    rw [plain] at encoded
    have key := literals member (Fields.value_mem (Fields.mem_of_get? listed)) literal plain
    have gives := ((own.members name member listed).literal literal plain).2
    cases literal with
    | string id =>
      cases encoded
      rw [gives] at byId
      exact byId
    | bool flag =>
      cases encoded
      rw [gives] at byId
      cases flag with
      | true => exact byId
      | false => exact byId
    | integer size =>
      have bounded : Value.isInteger size = true := key
      simp only [Value.relift, bounded, if_true] at encoded
      cases encoded
      rw [gives] at byId
      rw [Value.ofJson, Value.ofInt, if_pos bounded]
      show enumeration.byId? (toString (Int64.ofInt size).toInt) = some member
      rw [Value.toInt_ofInt bounded]
      exact byId
    | _ => exact key.elim

end Enumeration

namespace Decode

open NameTable (Grows)
open Value (Lifted Rereads)

/-! ## Scalars and lists -/

/-- What is written for a scalar is cast to it again. -/
theorem castScalar_again {type : Scalar} {value result data : Value} {keyOf : KeyOf}
    (casted : castScalar type value = some result) (texts : result.TextsReturn)
    (rereads : Rereads keyOf result data) : castScalar type data = some result := by
  cases type with
  | string =>
    obtain ⟨text, -, rfl⟩ := Option.map_eq_some_iff.mp casted
    rw [rereads.of_lifted (.string text)]
    rfl
  | integer =>
    obtain ⟨size, -, rfl⟩ := Option.map_eq_some_iff.mp casted
    rw [rereads.of_lifted (.integer size)]
    rfl
  | number =>
    obtain ⟨number, -, rfl⟩ := Option.map_eq_some_iff.mp casted
    rw [rereads.number]
    rfl
  | boolean =>
    obtain ⟨flag, -, rfl⟩ := Option.map_eq_some_iff.mp casted
    rw [rereads.of_lifted (.bool flag)]
    rfl
  | timestamp =>
    obtain ⟨time, -, rfl⟩ := Option.map_eq_some_iff.mp casted
    obtain ⟨json, encoded, rfl⟩ := rereads
    rw [Value.toJson, Except.ok.injEq] at encoded
    rw [← encoded, Value.ofJson, castScalar, toTimestamp?, texts.timestamps time .self,
      Option.map_some]
  | uuid =>
    obtain ⟨id, -, rfl⟩ := Option.map_eq_some_iff.mp casted
    obtain ⟨json, encoded, rfl⟩ := rereads
    rw [Value.toJson, Except.ok.injEq] at encoded
    rw [← encoded, Value.ofJson, castScalar, toUuid?, texts.identifiers id .self,
      Option.map_some]

theorem castItems_again {cast : Cast} {caster : Caster} {names : NameTable}
    {results again : List Value}
    (each : List.Forall₂ (fun result data => (cast caster data).run names = (.ok result, names))
      results again) (index : Nat) :
    (castItems cast caster index again).run names = (.ok results, names) := by
  induction each generalizing index with
  | nil => rfl
  | cons first _ ih =>
    refine run_bind_ok.mpr ⟨_, names, run_adapt_ok.mpr first, ?_⟩
    exact run_bind_ok.mpr ⟨_, names, ih (index + 1), rfl⟩

/-! ## Casts that come back -/

variable {registry : Registry}

/-- Data that was lifted, what it was cast to by a caster whose casts can be undone, and the data
that this was read as again. -/
structure Passage (registry : Registry) (names : NameTable) (caster : Caster)
    (value result data : Value) : Prop where
  restorable : registry.Restorable caster
  lifted : value.Lifted
  keys : registry.KeysReturn names caster value
  dispatches : registry.DispatchesReturn names caster value result
  texts : result.TextsReturn
  rereads : Rereads (registry.keyOf names) result data

/-- Whatever a cast gave is given again, with enough layers and without further special names. -/
def Returning (registry : Registry) (names : NameTable) (cast : Cast) : Prop :=
  ∀ caster value result data before, Passage registry names caster value result data →
    before.Sound → CastTo cast before names caster value result →
      ∀ fuel, layers registry caster data ≤ fuel →
        (castWith registry fuel caster data).run names = (.ok result, names)

/-- The passages of the items of a list. -/
theorem Passage.items {names : NameTable} {caster : Caster} {items results again : List Value}
    (passage : Passage registry names (.list caster) (.list items) (.list results) (.list again))
    {relation : Value → Value → Prop} (casted : List.Forall₂ relation items results)
    (each : List.Forall₂ (Rereads (registry.keyOf names)) results again) :
    List.Forall₂ (fun result data => data ∈ again ∧ ∃ item, relation item result ∧
      Passage registry names caster item result data) results again := by
  cases passage.lifted with
  | list lifted =>
    have sources : ∀ result ∈ results, ∃ item ∈ items,
        (item, result) ∈ items.zip results ∧ relation item result := fun result =>
      Lists.source_of_result (Lists.zipped casted)
    have related := ((List.forall₂_and_left _ _).mpr ⟨fun result member => member, each⟩)
    have backwards :=
      ((List.forall₂_and_left _ _).mpr ⟨fun data member => member, related.flip⟩).flip
    refine backwards.imp fun result data held => ?_
    obtain ⟨member, resultMember, rereads⟩ := held
    obtain ⟨item, itemMember, place, own⟩ := sources result resultMember
    refine ⟨member, item, own, ?_⟩
    constructor
    · exact passage.restorable.inner (.item .self)
    · exact lifted item itemMember
    · intro name entries decoded
      exact passage.keys name entries (.item itemMember decoded)
    · intro dispatcher inside outcome dispatched
      exact passage.dispatches dispatcher inside outcome (.item place dispatched)
    · exact passage.texts.item resultMember
    · exact rereads

/-! ## Data that needs no cast -/

/-- Whatever a caster takes is of a type already. -/
def TakesAll (registry : Registry) (caster : Caster) (type : TypeExpr) : Prop :=
  ∀ value result fuel before later,
    (castWith registry fuel caster value).run before = (.ok result, later) →
      registry.conforms value type = true

theorem TakesAll.list {caster : Caster} {type : TypeExpr} (takes : TakesAll registry caster type) :
    TakesAll registry (.list caster) (.list type) := by
  intro value result fuel before later casted
  obtain ⟨layers, casted⟩ := castWith_ok casted
  obtain ⟨items, results, rfl, -, each⟩ :=
    castLayer_list_ok (castWith_growing registry layers) casted
  rw [Registry.conforms, List.all_eq_true]
  intro item member
  obtain ⟨given, -, start, stop, -, -, ran⟩ := Lists.result_of_source each member
  exact takes item given layers start stop ran

theorem TakesAll.optional {caster : Caster} {type : TypeExpr}
    (takes : TakesAll registry caster type) : TakesAll registry caster (.optional type) := by
  intro value result fuel before later casted
  rw [Registry.conforms, takes value result fuel before later casted, Bool.or_true]

theorem castScalar_of_conforms {type : Scalar} {data : Value}
    (conforms : Registry.conformsScalar type data = true) : castScalar type data = some data := by
  unfold Registry.conformsScalar at conforms
  split at conforms
  case h_7 => cases conforms
  all_goals rfl

/-- Data that was read is no object and no member. -/
theorem Passage.plain {names : NameTable} {caster : Caster} {value result data : Value}
    (passage : Passage registry names caster value result data) : data.Plain := by
  obtain ⟨json, -, rfl⟩ := passage.rereads
  exact Value.ofJson_plain json

section

variable (wellFormed : registry.WellFormed) {names : NameTable} {value result data : Value}

include wellFormed

/-- A member that a cast gives is found again by what it is written as. -/
theorem Passage.member {name : String} {enumeration : Enumeration} {member : Member}
    (passage : Passage registry names (.enumeration name) value (.member member) data)
    (present : Fields.get? registry.enumerations name = some enumeration)
    (found : enumeration.lookup? value = some member) : enumeration.lookup? data = some member :=
  Enumeration.lookup?_again (wellFormed.enumerations name enumeration present).2
    (passage.restorable.literals name enumeration .self present) passage.lifted found
    passage.rereads

/-- Only null is read again as null. -/
theorem null_again {fuel : Nat} {caster : Caster} {before later : NameTable}
    (passage : Passage registry names caster value result .null)
    (casted : (castWith registry fuel caster value).run before = (.ok result, later)) :
    result = .null := by
  cases passage.rereads.null with
  | inl null => exact null
  | inr held =>
    obtain ⟨member, rfl⟩ := held
    have plain := passage.lifted.plain
    obtain ⟨layers, casted⟩ := castWith_ok casted
    cases caster with
    | identity =>
      rw [← castLayer_identity_ok casted] at plain
      cases plain
    | scalar type =>
      obtain ⟨scalar, -⟩ := castLayer_scalar_ok.mp casted
      cases type <;>
        · obtain ⟨_, -, impossible⟩ := Option.map_eq_some_iff.mp scalar
          cases impossible
    | list item =>
      obtain ⟨items, results, -, impossible, -⟩ :=
        castLayer_list_ok (castWith_growing registry layers) casted
      cases impossible
    | enumeration name =>
      obtain ⟨⟨enumeration, other, present, found, same⟩, -⟩ :=
        castLayer_enumeration_ok.mp casted
      cases same
      cases passage.member wellFormed present found
    | composite name =>
      obtain ⟨entries, composite, -, present, ran⟩ :=
        (castLayer_composite_ok wellFormed plain).mp casted
      obtain ⟨_, attributes, impossible, -⟩ :=
        fromEntries_filled wellFormed (castWith_growing registry layers) present ran
      cases impossible
    | polymorph dispatcher =>
      obtain ⟨inside, branch, rfl, -, -⟩ := castLayer_polymorph_ok plain casted
      obtain ⟨again, impossible, -⟩ :=
        passage.dispatches dispatcher inside _ .self .null passage.rereads
      cases impossible

/-- Data that already is of the type is what it was read for, unless whatever the caster takes is of
the type. -/
theorem conforms_again {type : TypeExpr} {caster : Caster} (fits : Fits True type caster)
    {fuel : Nat} {before later : NameTable}
    (passage : Passage registry names caster value result data)
    (casted : (castWith registry fuel caster value).run before = (.ok result, later))
    (conforms : registry.conforms data type = true) :
    data = result ∨ TakesAll registry caster type := by
  -- Data that conforms is not cast again; so each cast must give what reading would have given.
  induction fits generalizing fuel value result data before later with
  | any =>
    obtain ⟨layers, casted⟩ := castWith_ok casted
    cases castLayer_identity_ok casted
    exact .inl (passage.rereads.of_lifted passage.lifted)
  | scalar type =>
    obtain ⟨layers, casted⟩ := castWith_ok casted
    obtain ⟨scalar, -⟩ := castLayer_scalar_ok.mp casted
    have again := castScalar_again scalar passage.texts passage.rereads
    rw [castScalar_of_conforms conforms] at again
    exact .inl (Option.some.inj again)
  | @list item caster inner ih =>
    by_cases takes : TakesAll registry caster item
    · exact .inr takes.list
    · obtain ⟨layers, casted⟩ := castWith_ok casted
      obtain ⟨items, results, rfl, rfl, each⟩ :=
        castLayer_list_ok (castWith_growing registry layers) casted
      obtain ⟨again, rfl, rereads⟩ := passage.rereads.list
      rw [Registry.conforms, List.all_eq_true] at conforms
      have same : again = results := by
        refine Lists.eq_of_related (passage.items each rereads) ?_
        intro result _ data held
        obtain ⟨member, item, ⟨start, stop, -, -, ran⟩, own⟩ := held
        exact (ih own ran (conforms data member)).resolve_right takes
      exact .inl (congrArg Value.list same)
  | union =>
    obtain ⟨layers, casted⟩ := castWith_ok casted
    cases castLayer_identity_ok casted
    exact .inl (passage.rereads.of_lifted passage.lifted)
  | optional inner ih =>
    rw [Registry.conforms, Bool.or_eq_true_iff] at conforms
    cases conforms with
    | inl null =>
      cases data with
      | null => exact .inl (null_again wellFormed passage casted).symm
      | _ => cases null
    | inr conforms => exact (ih passage casted conforms).imp id TakesAll.optional
  | enumeration name =>
    cases passage.plain <;> cases conforms
  | composite name =>
    cases passage.plain <;> cases conforms
  | @polymorph members dispatcher =>
    obtain ⟨layers, casted⟩ := castWith_ok casted
    obtain ⟨inside, branch, rfl, -, -⟩ := castLayer_polymorph_ok passage.lifted.plain casted
    obtain ⟨again, rfl, -⟩ :=
      passage.dispatches dispatcher inside result .self data passage.rereads
    -- Only types that take anything take maps.
    exact .inr fun other _ _ _ _ _ => Registry.conforms_of_map conforms other

end

end Decode

end TypedSchema
