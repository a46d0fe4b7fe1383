import TypedSchema.Compile
import TypedSchema.Proofs.Naming.Escape
import TypedSchema.Proofs.Values.Nested

/-!
Where schemas stand in a document. A schema inside another one is given a name after the place where
it stands; it takes that name if its type needs one, as the definitions of the document take theirs.
-/

namespace TypedSchema

theorem Definition.get?_of_unconstrained {definition : Definition}
    (unconstrained : definition.isUnconstrained = true) {keyword : String}
    (shapes : keyword ∈ shapeKeywords) : definition.get? keyword = none := by
  simp only [isUnconstrained, Bool.not_eq_true', List.any_eq_false] at unconstrained
  have absent := unconstrained keyword shapes
  simpa [has, Fields.has, get?] using absent

/-- A definition that has a category constrains something. -/
theorem Definition.constrained_of_shape {definition : Definition} {category : Category}
    (shape : definition.shape = .ok category) : definition.isUnconstrained = false := by
  cases unconstrained : definition.isUnconstrained with
  | false => rfl
  | true =>
    have absent : ∀ keyword ∈ shapeKeywords, definition.get? keyword = none := fun keyword =>
      get?_of_unconstrained unconstrained
    have has : ∀ keyword ∈ shapeKeywords, definition.has keyword = false := fun keyword member => by
      have none := absent keyword member
      simpa [Definition.has, Fields.has, get?] using none
    have reference := has "$ref" (by decide)
    have oneOf := has "oneOf" (by decide)
    simp [Definition.shape, Definition.category, allOf?, oneOf?, array?, typeName?, hasNativeType,
      enum?, properties?, reference, oneOf, absent "allOf" (by decide), absent "anyOf" (by decide),
      absent "type" (by decide), absent "enum" (by decide),
      absent "properties" (by decide)] at shape

namespace Definition

theorem ofJson_ok {json : Json} {definition : Definition} (read : ofJson json = .ok definition) :
    json = definition.toJson := by
  cases json with
  | object members =>
    cases read
    rfl
  | _ => cases read

variable {definition : Definition} {keyword : String}

theorem child_of_get? {json : Json} (found : definition.get? keyword = some json) :
    Json.Child json definition.toJson :=
  .member (Fields.mem_of_get? found)

theorem inside_of_array? {items : List Json} (found : definition.array? keyword = some items)
    {item : Json} (listed : item ∈ items) : Json.Inside item definition.toJson := by
  obtain ⟨json, held, array⟩ := Option.bind_eq_some_iff.mp found
  cases json with
  | array all =>
    cases array
    exact .head (.item listed) (.single (child_of_get? held))
  | _ => cases array

theorem inside_of_properties {entry : String × Json}
    (declared : entry ∈ definition.properties?.getD []) :
    Json.Inside entry.2 definition.toJson := by
  cases found : definition.properties? with
  | none =>
    rw [found] at declared
    cases declared
  | some fields =>
    rw [found] at declared
    obtain ⟨json, held, listed⟩ := Option.bind_eq_some_iff.mp found
    cases json with
    | object all =>
      cases listed
      exact .head (.member declared) (.single (child_of_get? held))
    | _ => cases listed

theorem inside_of_oneOf {alternative : Json} (listed : alternative ∈ definition.oneOf?.getD []) :
    Json.Inside alternative definition.toJson := by
  cases found : definition.oneOf? with
  | none =>
    rw [found] at listed
    cases listed
  | some options =>
    rw [found] at listed
    exact inside_of_array? found listed

theorem inside_of_allOf {part : Json} (listed : part ∈ definition.allOf?.getD []) :
    Json.Inside part definition.toJson := by
  cases found : definition.allOf? with
  | none =>
    rw [found] at listed
    cases listed
  | some parts =>
    rw [found] at listed
    exact inside_of_array? found listed

end Definition

namespace Compile

/-- The types that are registered for schemas in their place. -/
def isAnonymous : Category → Bool
  | .enumeration => true
  | .custom => true
  | .multiInheritance => true
  | _ => false

theorem ne_passthrough_of_anonymous {category : Category} (anonymous : isAnonymous category = true) :
    category ≠ .passthrough := by
  rintro rfl
  cases anonymous

/-- The schemas in a definition of a category, each under the name that is made for its place. -/
inductive Part (owner : String) (definition : Definition) :
    Category → Definition → String → Prop where
  | property {key : String} {schema : Json} {inner : Definition}
    (declared : (key, schema) ∈ definition.properties?.getD [])
    (node : Definition.ofJson schema = .ok inner) :
    Part owner definition .custom inner (propertyHint owner (Naming.snake key))
  | additional {schema : Json} {inner : Definition}
    (declared : definition.additionalProperties? = some schema)
    (node : Definition.ofJson schema = .ok inner) :
    Part owner definition .custom inner (owner ++ "_AdditionalProperties")
  | item {schema : Json} {inner : Definition} (declared : definition.items? = some schema)
    (node : Definition.ofJson schema = .ok inner) :
    Part owner definition .list inner (owner ++ "_Item")
  | option {schema : Json} {index : Nat} {inner : Definition}
    (declared : (schema, index) ∈ alternatives definition)
    (node : Definition.ofJson schema = .ok inner) :
    Part owner definition .union inner (optionHint owner index)
  | branch {parts : List Json} {part : Json} {index : Nat} {inner : Definition}
    (allOf : definition.allOf? = some parts) (declared : (part, index) ∈ parts.zipIdx)
    (node : Definition.ofJson ((part.member? "then").getD .null) = .ok inner) :
    Part owner definition .polymorph inner (optionHint owner index)
  | parent {part : Json} {index : Nat} {inner : Definition} {category : Category}
    (declared : (part, index) ∈ (definition.allOf?.getD []).zipIdx)
    (node : Definition.ofJson part = .ok inner) (shape : inner.shape = .ok category)
    (named : isAnonymous category = true) :
    Part owner definition .multiInheritance inner s!"{owner}_Parent{index}"

theorem Part.inside {owner hint : String} {outer inner : Definition} {category : Category}
    (part : Part owner outer category inner hint) : Json.Inside inner.toJson outer.toJson := by
  cases part with
  | property declared node =>
    rw [← Definition.ofJson_ok node]
    exact Definition.inside_of_properties declared
  | additional declared node =>
    rw [← Definition.ofJson_ok node]
    exact .single (Definition.child_of_get? declared)
  | item declared node =>
    rw [← Definition.ofJson_ok node]
    exact .single (Definition.child_of_get? declared)
  | option declared node =>
    rw [← Definition.ofJson_ok node]
    exact Definition.inside_of_oneOf
      (List.fst_mem_of_mem_zipIdx (List.mem_of_mem_filter declared))
  | @branch parts part _ _ allOf declared node =>
    have whole := Definition.inside_of_array? allOf (List.fst_mem_of_mem_zipIdx declared)
    cases found : part.member? "then" with
    | none =>
      -- Without a branch there is no schema to read.
      rw [found] at node
      cases node
    | some branch =>
      rw [found] at node
      rw [← Definition.ofJson_ok node]
      exact .head (Json.child_of_member? found) whole
  | parent declared node =>
    rw [← Definition.ofJson_ok node]
    exact Definition.inside_of_allOf (List.fst_mem_of_mem_zipIdx declared)

/-- The schemas of a document, each under the name of its place. -/
inductive Placed (document : Document) : Definition → String → Prop where
  | listed {name : String} {definition : Definition}
    (listed : (name, definition) ∈ document.definitions) : Placed document definition name
  | part {owner hint : String} {outer inner : Definition} {category : Category}
    (placed : Placed document outer owner) (shape : outer.shape = .ok category)
    (part : Part owner outer category inner hint) : Placed document inner hint

/-- The schemas that take the name of their place: those listed, and those whose type needs one. -/
structure Named (document : Document) (name : String) (definition : Definition)
    (category : Category) : Prop where
  placed : Placed document definition name
  shape : definition.shape = .ok category
  needed : (name, definition) ∈ document.definitions ∨ isAnonymous category = true

end Compile

end TypedSchema
