import TypedSchema.Proofs.Compile.Compiled

/-!
Which schema a type was made for. Where no two schemas of a document take one name, every schema
that takes a name is the one its type was made for, and then every schema denotes what it denotes by
its own types.
-/

namespace TypedSchema

namespace Definition

variable {definition : Definition}

/-- The properties of a definition without repeated keys. -/
theorem keyed_properties (keyed : definition.toJson.keyed = true) :
    Fields.Distinct (definition.properties?.getD []) := by
  cases found : definition.properties? with
  | none => exact List.nodup_nil
  | some fields =>
    obtain ⟨json, held, listed⟩ := Option.bind_eq_some_iff.mp found
    have whole := (child_of_get? held).keyed keyed
    cases json with
    | object all =>
      cases listed
      exact Json.keyed_distinct whole
    | _ => cases listed

end Definition

namespace Compile

variable {document : Document}

/-- No schema in a document without repeated keys has any. -/
theorem Placed.keyed {document : Document.Keyed} {definition : Definition} {name : String}
    (placed : Placed document.val definition name) : definition.toJson.keyed = true := by
  induction placed with
  | listed listed => exact document.property _ listed
  | part _ _ part ih => exact part.inside.keyed ih

/-! ## Types of their own -/

/-- A type that was made for a schema of its name. -/
def MadeFor (registry : Registry) (name : String) (definition : Definition)
    (category : Category) : Prop :=
  ∃ entry, Fields.get? registry.entries name = some entry ∧ entry.definition = definition ∧
    entry.category = category

/-- Every schema that takes a name is the one its type was made for. -/
def AllMade (document : Document) (registry : Registry) : Prop :=
  ∀ name definition category, Named document name definition category →
    MadeFor registry name definition category

section

variable {registry : Registry}

mutual
/-- With types of their own, schemas denote what they denote by these. -/
theorem Denotes.own (made : AllMade document registry) {definition : Definition} {hint : String}
    {resolved : Resolved} (placed : Placed document definition hint) :
    Denotes False (patternsOf document) registry definition hint resolved →
      Denotes True (patternsOf document) registry definition hint resolved
  | .anything hint unconstrained => .anything hint unconstrained
  | .shaped constrained shape inner =>
    .shaped constrained shape (Shaped.own made placed shape inner)

theorem Shaped.own (made : AllMade document registry) {category : Category}
    {definition : Definition} {hint : String} {resolved : Resolved}
    (placed : Placed document definition hint) (shape : definition.shape = .ok category) :
    Shaped False (patternsOf document) registry category definition hint resolved →
      Shaped True (patternsOf document) registry category definition hint resolved
  | .reference hint referred present => .reference hint referred present
  | .scalar found => .scalar found
  | .listOfAnything hint items => .listOfAnything hint items
  | .list items constrained node inner =>
    .list items constrained node (Denotes.own made (placed.part shape (.item items node)) inner)
  | .union inner => .union (DenotesOptions.own made
      (fun schema index member inner node => placed.part shape (.option member node)) inner)
  | .conditional allOf inner => .conditional allOf (DenotesConditions.own made
      (fun part index member inner node => placed.part shape (.branch allOf member node)) inner)
  | .keyed hint allOf found targets => .keyed hint allOf found targets
  | .anonymous named present _ => .anonymous named present fun _ => by
      obtain ⟨entry, held, own⟩ := made _ _ _ ⟨placed, shape, .inr named⟩
      rw [present] at held
      cases held
      exact own

theorem DenotesOptions.own (made : AllMade document registry) {hint : String}
    {options : List (Json × Nat)} {members : List Resolved}
    (placed : ∀ schema index, (schema, index) ∈ options → ∀ inner,
      Definition.ofJson schema = .ok inner → Placed document inner (optionHint hint index)) :
    DenotesOptions False (patternsOf document) registry hint options members →
      DenotesOptions True (patternsOf document) registry hint options members
  | .nil hint => .nil hint
  | .cons node first later =>
    .cons node (Denotes.own made (placed _ _ List.mem_cons_self _ node) first)
      (DenotesOptions.own made
        (fun schema index member => placed schema index (List.mem_cons_of_mem _ member)) later)

theorem DenotesConditions.own (made : AllMade document registry) {hint : String}
    {parts : List (Json × Nat)} {conditions : List (Condition Caster × TypeExpr)}
    (placed : ∀ part index, (part, index) ∈ parts → ∀ inner,
      Definition.ofJson ((part.member? "then").getD .null) = .ok inner →
        Placed document inner (optionHint hint index)) :
    DenotesConditions False (patternsOf document) registry hint parts conditions →
      DenotesConditions True (patternsOf document) registry hint parts conditions
  | .nil hint => .nil hint
  | .cons asked node first later =>
    .cons asked node (Denotes.own made (placed _ _ List.mem_cons_self _ node) first)
      (DenotesConditions.own made
        (fun part index member => placed part index (List.mem_cons_of_mem _ member)) later)
end

end

/-! ## Names apart -/

/-- No two schemas of a document take the same name. -/
def NamesApart (document : Document) : Prop :=
  ∀ name first second firstCategory secondCategory, Named document name first firstCategory →
    Named document name second secondCategory → first = second

theorem Denotes.registered {ownNodes : Prop} {patterns : Patterns} {registry : Registry}
    {definition : Definition} {hint : String} {resolved : Resolved} {category : Category}
    (denotes : Denotes ownNodes patterns registry definition hint resolved)
    (shape : definition.shape = .ok category) (named : isAnonymous category = true) :
    hint ∈ Fields.names registry.entries := by
  obtain ⟨entry, present, -⟩ := (denotes.of_shape shape).of_anonymous named
  exact Fields.mem_names_iff.mpr ⟨entry, present⟩

/-- What is registered under a name was made for the schema that takes it. -/
theorem Sound.made_of_registered {workspace : Workspace} (sound : Sound document workspace)
    (apart : NamesApart document) {name : String} {definition : Definition} {category : Category}
    (named : Named document name definition category)
    (registered : name ∈ Fields.names workspace.registry.entries) :
    MadeFor workspace.registry name definition category := by
  obtain ⟨entry, present⟩ := Fields.mem_names_iff.mp registered
  obtain ⟨held, known, same, sameCategory⟩ := (sound.entries name entry present).origin
  -- The entry was made from what was known under the name, which is the schema that takes it.
  have own := sound.known name held known
  have equal := apart name held.definition definition held.category category own named
  refine ⟨entry, present, same.trans equal, ?_⟩
  have shape := own.shape
  rw [equal, named.shape] at shape
  cases shape
  exact sameCategory

/-- Everything in an object type that was bound has been resolved. -/
theorem BoundTo.explored {registry : Registry} {name : String} {definition : Definition}
    {composite : Composite} (bound : BoundTo document registry name definition composite) :
    Explored document registry name definition .custom := by
  intro inner hint part
  cases part with
  | @property key schema _ declared node =>
    obtain ⟨properties, each, -⟩ := bound.properties
    obtain ⟨property, -, own⟩ := Lists.result_of_source each (mem_bindingOrder.mpr declared)
    obtain ⟨other, resolved, read, denotes, -⟩ := own.typed
    rw [node] at read
    cases read
    exact ⟨resolved, denotes⟩
  | additional declared node =>
    have ways := bound.catchAll
    generalize composite.catchAll = catchAll at ways
    cases ways with
    | refused absent =>
      rw [declared] at absent
      rcases absent with none | refused
      · cases none
      · cases refused
        cases node
    | anything anything =>
      rw [declared] at anything
      cases anything
      cases node
    | schema own read denotes =>
      rw [declared] at own
      cases own
      rw [node] at read
      cases read
      exact ⟨_, denotes⟩

/-! ## Schemas that have been resolved -/

section

variable {workspace : Workspace} (sound : Sound document workspace) (apart : NamesApart document)

include sound apart

/-- What is registered was explored, but for object types, which are bound later. -/
theorem Sound.explored {name : String} {definition : Definition} {category : Category}
    (named : Named document name definition category)
    (registered : name ∈ Fields.names workspace.registry.entries)
    (object : category = .custom →
      Explored document workspace.registry name definition .custom) :
    Explored document workspace.registry name definition category := by
  obtain ⟨entry, present, rfl, rfl⟩ := sound.made_of_registered apart named registered
  by_cases custom : entry.category = .custom
  · rw [custom]
    exact object custom
  · exact (sound.entries name entry present).explored custom

variable (listed : ∀ name ∈ Fields.names document.definitions,
    name ∈ Fields.names workspace.registry.entries)
  {least : Nat}
  (objects : ∀ name definition, Named document name definition .custom →
    least < definition.toJson.depth → name ∈ Fields.names workspace.registry.entries →
      Explored document workspace.registry name definition .custom)

include listed objects

/-- What stands in a schema that was resolved was resolved, where enough object types are bound. -/
theorem Sound.part_stands {owner hint : String} {outer inner : Definition} {category : Category}
    (placed : Placed document outer owner) (shape : outer.shape = .ok category)
    (part : Part owner outer category inner hint) (deep : least < outer.toJson.depth)
    (stands : (owner, outer) ∈ document.definitions ∨
      ∃ resolved, Denotes False (patternsOf document) workspace.registry outer owner resolved) :
    ∃ resolved, Denotes False (patternsOf document) workspace.registry inner hint resolved := by
  have inside : Named document owner outer category →
      owner ∈ Fields.names workspace.registry.entries →
        ∃ resolved, Denotes False (patternsOf document) workspace.registry inner hint resolved := by
    intro named registered
    refine sound.explored apart named registered (fun custom => ?_) inner hint part
    subst custom
    exact objects owner outer named deep registered
  -- A schema that has a type of its own was explored for that type, any other with its owner.
  rcases stands with own | ⟨resolved, denotes⟩
  · exact inside ⟨placed, shape, .inl own⟩ (listed owner (Fields.name_mem own))
  · by_cases anonymous : isAnonymous category = true
    · exact inside ⟨placed, shape, .inr anonymous⟩ (denotes.registered shape anonymous)
    · exact (denotes.of_shape shape).contents (by simpa using anonymous) part

/-- Every schema is listed under its name, or was resolved where it stands. -/
theorem Sound.stands {definition : Definition} {name : String}
    (placed : Placed document definition name) (deep : least ≤ definition.toJson.depth) :
    (name, definition) ∈ document.definitions ∨
      ∃ resolved, Denotes False (patternsOf document) workspace.registry definition name
        resolved := by
  induction placed with
  | listed listed => exact .inl listed
  | part placed shape part ih =>
    have deeper := Nat.lt_of_le_of_lt deep part.inside.depth_lt
    exact .inr (sound.part_stands apart listed objects placed shape part deeper
      (ih (Nat.le_of_lt deeper)))

/-- Every schema that takes a name is registered under it, where enough object types are bound. -/
theorem Sound.registered {name : String} {definition : Definition} {category : Category}
    (named : Named document name definition category) (deep : least ≤ definition.toJson.depth) :
    name ∈ Fields.names workspace.registry.entries := by
  rcases named.needed with own | anonymous
  · exact listed name (Fields.name_mem own)
  · rcases sound.stands apart listed objects named.placed deep with own | ⟨resolved, denotes⟩
    · exact listed name (Fields.name_mem own)
    · exact denotes.registered named.shape anonymous

end

namespace Compiled

variable {workspace : Workspace} {registry : Registry}
  (compiled : Compiled document workspace registry) (apart : NamesApart document)

include compiled apart

/-- Every object type was bound to the schema that takes its name. -/
theorem bound_of_named {name : String} {definition : Definition}
    (named : Named document name definition .custom)
    (registered : name ∈ Fields.names workspace.registry.entries) :
    ∃ composite, BoundTo document workspace.registry name definition composite := by
  obtain ⟨entry, present, rfl, category⟩ :=
    compiled.sound.made_of_registered apart named registered
  obtain ⟨held, known, same, sameCategory⟩ := (compiled.sound.entries name entry present).origin
  have listed := mem_group known
  rw [← sameCategory, category] at listed
  obtain ⟨other, composite, otherKnown, -, -, bound⟩ := compiled.bound name listed
  rw [known] at otherKnown
  cases otherKnown
  exact ⟨composite, same ▸ bound⟩

theorem objects_explored (name : String) (definition : Definition)
    (named : Named document name definition .custom) (_deep : 0 < definition.toJson.depth)
    (registered : name ∈ Fields.names workspace.registry.entries) :
    Explored document workspace.registry name definition .custom := by
  obtain ⟨composite, bound⟩ := compiled.bound_of_named apart named registered
  exact bound.explored

theorem stands {definition : Definition} {name : String}
    (placed : Placed document definition name) :
    (name, definition) ∈ document.definitions ∨
      ∃ resolved, Denotes False (patternsOf document) workspace.registry definition name
        resolved :=
  compiled.sound.stands apart compiled.listed (compiled.objects_explored apart) placed
    (Nat.zero_le _)

/-- Whatever stands inside another schema was resolved there. -/
theorem part_stands {owner hint : String} {outer inner : Definition} {category : Category}
    (placed : Placed document outer owner) (shape : outer.shape = .ok category)
    (part : Part owner outer category inner hint) :
    ∃ resolved, Denotes False (patternsOf document) workspace.registry inner hint resolved :=
  compiled.sound.part_stands apart compiled.listed (compiled.objects_explored apart) placed shape
    part (Nat.zero_lt_of_lt part.inside.depth_lt) (compiled.stands apart placed)

theorem registered {name : String} {definition : Definition} {category : Category}
    (named : Named document name definition category) :
    name ∈ Fields.names workspace.registry.entries :=
  compiled.sound.registered apart compiled.listed (compiled.objects_explored apart) named
    (Nat.zero_le _)

theorem allMade : AllMade document registry := by
  intro name definition category named
  unfold MadeFor
  rw [compiled.completed.entries]
  exact compiled.sound.made_of_registered apart named (compiled.registered apart named)

end Compiled

end Compile

end TypedSchema
