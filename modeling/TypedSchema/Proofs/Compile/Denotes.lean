import TypedSchema.Proofs.Compile.Places
import TypedSchema.Proofs.Lists
import TypedSchema.Proofs.Registry.Closed
import TypedSchema.Proofs.Registry.WellFormed
import TypedSchema.Proofs.Types.Equality

/-!
What a schema in its place stands for in a registry. Types that are referred to are those registered
under the names referred to, and types that schemas without a name of their own get are those
registered under the names made for them.
-/

namespace TypedSchema.Compile

/-- The type of alternatives that are resolved: theirs, if there is one next to null, and else a
union whose data is left as it is. -/
def unionOf (definition : Definition) (members : List Resolved) : Resolved :=
  let union := TypeExpr.union (members.map Resolved.type)
  if (definition.oneOf?.getD []).any isNullType then
    match members with
    | [member] => ⟨member.type.orNull, member.caster⟩
    | _ => ⟨union.orNull, .identity⟩
  else ⟨union, .identity⟩

/-- A branch of a discriminator in a registry: that of the definition which its key stands for. -/
def TargetDenotes (registry : Registry) (pair : String × String)
    (branch : (String × Branch Caster) × TypeExpr) : Prop :=
  ∃ entry, Fields.get? registry.entries pair.2 = some entry ∧
    branch = ((pair.1, ⟨branchTarget entry.type pair.2, entry.caster⟩), entry.type)

mutual
/-- What a schema stands for where the hint names it. With `ownNodes`, the types made for schemas
inside are registered for those very schemas. -/
inductive Denotes (ownNodes : Prop) (patterns : Patterns) (registry : Registry) :
    Definition → String → Resolved → Prop where
  | anything {definition : Definition} (hint : String)
    (unconstrained : definition.isUnconstrained = true) :
    Denotes ownNodes patterns registry definition hint .anything
  | shaped {definition : Definition} {hint : String} {category : Category} {resolved : Resolved}
    (constrained : definition.isUnconstrained = false) (shape : definition.shape = .ok category)
    (inner : Shaped ownNodes patterns registry category definition hint resolved) :
    Denotes ownNodes patterns registry definition hint resolved

/-- The same for a schema of a category. -/
inductive Shaped (ownNodes : Prop) (patterns : Patterns) (registry : Registry) :
    Category → Definition → String → Resolved → Prop where
  | reference {definition : Definition} {target : String} {entry : Entry} (hint : String)
    (referred : definition.referenceName? = some target)
    (present : Fields.get? registry.entries target = some entry) :
    Shaped ownNodes patterns registry .passthrough definition hint ⟨entry.type, entry.caster⟩
  | scalar {definition : Definition} {hint : String} {scalar : Scalar}
    (found : scalarOf patterns definition hint = .ok scalar) :
    Shaped ownNodes patterns registry .native definition hint ⟨.scalar scalar, .scalar scalar⟩
  | listOfAnything {definition : Definition} (hint : String)
    (items : definition.items? = none ∨ definition.items? = some (.bool true)) :
    Shaped ownNodes patterns registry .list definition hint ⟨.list .any, .list .identity⟩
  | list {definition item : Definition} {hint : String} {schema : Json} {resolved : Resolved}
    (items : definition.items? = some schema) (constrained : schema ≠ .bool true)
    (node : Definition.ofJson schema = .ok item)
    (inner : Denotes ownNodes patterns registry item (hint ++ "_Item") resolved) :
    Shaped ownNodes patterns registry .list definition hint
      ⟨.list resolved.type, .list resolved.caster⟩
  | union {definition : Definition} {hint : String} {members : List Resolved}
    (inner : DenotesOptions ownNodes patterns registry hint (alternatives definition) members) :
    Shaped ownNodes patterns registry .union definition hint (unionOf definition members)
  | conditional {definition : Definition} {hint : String} {parts : List Json}
    {conditions : List (Condition Caster × TypeExpr)} (allOf : definition.allOf? = some parts)
    (inner : DenotesConditions ownNodes patterns registry hint parts.zipIdx conditions) :
    Shaped ownNodes patterns registry .polymorph definition hint
      ⟨.union (conditions.map Prod.snd), .polymorph (.conditional (conditions.map Prod.fst))⟩
  | keyed {definition : Definition} {discriminator : Discriminator}
    {branches : List ((String × Branch Caster) × TypeExpr)} (hint : String)
    (allOf : definition.allOf? = none)
    (found : definition.discriminator? = .ok (some discriminator))
    (targets :
      List.Forall₂ (TargetDenotes registry) (targetsOf definition discriminator) branches) :
    Shaped ownNodes patterns registry .polymorph definition hint
      ⟨.union (branches.map Prod.snd).eraseDups,
        .polymorph (.keyed discriminator.property (Fields.ofList (branches.map Prod.fst)))⟩
  | anonymous {definition : Definition} {hint : String} {category : Category} {entry : Entry}
    (named : isAnonymous category = true)
    (present : Fields.get? registry.entries hint = some entry)
    (own : ownNodes → entry.definition = definition ∧ entry.category = category) :
    Shaped ownNodes patterns registry category definition hint ⟨entry.type, entry.caster⟩

/-- The same for alternatives, each with its index. -/
inductive DenotesOptions (ownNodes : Prop) (patterns : Patterns) (registry : Registry) :
    String → List (Json × Nat) → List Resolved → Prop where
  | nil (hint : String) : DenotesOptions ownNodes patterns registry hint [] []
  | cons {hint : String} {schema : Json} {index : Nat} {rest : List (Json × Nat)}
    {definition : Definition} {resolved : Resolved} {others : List Resolved}
    (node : Definition.ofJson schema = .ok definition)
    (first : Denotes ownNodes patterns registry definition (optionHint hint index) resolved)
    (later : DenotesOptions ownNodes patterns registry hint rest others) :
    DenotesOptions ownNodes patterns registry hint ((schema, index) :: rest) (resolved :: others)

/-- The same for conditions with the schemas that they lead to. -/
inductive DenotesConditions (ownNodes : Prop) (patterns : Patterns) (registry : Registry) :
    String → List (Json × Nat) → List (Condition Caster × TypeExpr) → Prop where
  | nil (hint : String) : DenotesConditions ownNodes patterns registry hint [] []
  | cons {hint : String} {part : Json} {index : Nat} {rest : List (Json × Nat)}
    {constants : Fields Value} {definition : Definition} {resolved : Resolved}
    {others : List (Condition Caster × TypeExpr)}
    (asked : constantsOf hint part index = .ok constants)
    (node : Definition.ofJson ((part.member? "then").getD .null) = .ok definition)
    (first : Denotes ownNodes patterns registry definition (optionHint hint index) resolved)
    (later : DenotesConditions ownNodes patterns registry hint rest others) :
    DenotesConditions ownNodes patterns registry hint ((part, index) :: rest)
      ((⟨constants, ⟨branchTarget resolved.type
        (definition.referenceName?.getD (optionHint hint index)), resolved.caster⟩⟩,
        resolved.type) :: others)
end

section

variable {ownNodes : Prop} {patterns : Patterns} {registry : Registry} {definition : Definition}
  {hint : String} {category : Category} {resolved : Resolved}

/-- Whatever has a category stands for what its category says. -/
theorem Denotes.of_shape (denotes : Denotes ownNodes patterns registry definition hint resolved)
    (shape : definition.shape = .ok category) :
    Shaped ownNodes patterns registry category definition hint resolved := by
  cases denotes with
  | anything _ unconstrained =>
    rw [Definition.constrained_of_shape shape] at unconstrained
    cases unconstrained
  | shaped _ own inner =>
    rw [shape] at own
    cases own
    exact inner

/-- Types without a name of their own are registered under the names made for them. -/
theorem Shaped.of_anonymous
    (shaped : Shaped ownNodes patterns registry category definition hint resolved)
    (named : isAnonymous category = true) :
    ∃ entry, Fields.get? registry.entries hint = some entry ∧
      resolved = ⟨entry.type, entry.caster⟩ ∧
      (ownNodes → entry.definition = definition ∧ entry.category = category) := by
  cases shaped with
  | anonymous _ present own => exact ⟨_, present, rfl, own⟩
  | _ => cases named

end

/-! ## More names -/

/-- A registry that holds all entries of another. -/
def Extends (before after : Registry) : Prop :=
  ∀ name entry, Fields.get? before.entries name = some entry →
    Fields.get? after.entries name = some entry

variable {ownNodes : Prop} {patterns : Patterns} {before after registry : Registry}

theorem TargetDenotes.mono (extended : Extends before after) {pair : String × String}
    {branch : (String × Branch Caster) × TypeExpr} (denotes : TargetDenotes before pair branch) :
    TargetDenotes after pair branch := by
  obtain ⟨entry, present, equal⟩ := denotes
  exact ⟨entry, extended _ _ present, equal⟩

mutual
theorem Denotes.mono (extended : Extends before after) {definition : Definition} {hint : String}
    {resolved : Resolved} :
    Denotes ownNodes patterns before definition hint resolved →
      Denotes ownNodes patterns after definition hint resolved
  | .anything hint unconstrained => .anything hint unconstrained
  | .shaped constrained shape inner => .shaped constrained shape (Shaped.mono extended inner)

theorem Shaped.mono (extended : Extends before after) {category : Category}
    {definition : Definition} {hint : String} {resolved : Resolved} :
    Shaped ownNodes patterns before category definition hint resolved →
      Shaped ownNodes patterns after category definition hint resolved
  | .reference hint referred present => .reference hint referred (extended _ _ present)
  | .scalar found => .scalar found
  | .listOfAnything hint items => .listOfAnything hint items
  | .list items constrained node inner =>
    .list items constrained node (Denotes.mono extended inner)
  | .union inner => .union (DenotesOptions.mono extended inner)
  | .conditional allOf inner => .conditional allOf (DenotesConditions.mono extended inner)
  | .keyed hint allOf found targets =>
    .keyed hint allOf found (targets.imp fun _ _ => TargetDenotes.mono extended)
  | .anonymous named present own => .anonymous named (extended _ _ present) own

theorem DenotesOptions.mono (extended : Extends before after) {hint : String}
    {options : List (Json × Nat)} {members : List Resolved} :
    DenotesOptions ownNodes patterns before hint options members →
      DenotesOptions ownNodes patterns after hint options members
  | .nil hint => .nil hint
  | .cons node first later =>
    .cons node (Denotes.mono extended first) (DenotesOptions.mono extended later)

theorem DenotesConditions.mono (extended : Extends before after) {hint : String}
    {parts : List (Json × Nat)} {conditions : List (Condition Caster × TypeExpr)} :
    DenotesConditions ownNodes patterns before hint parts conditions →
      DenotesConditions ownNodes patterns after hint parts conditions
  | .nil hint => .nil hint
  | .cons asked node first later =>
    .cons asked node (Denotes.mono extended first) (DenotesConditions.mono extended later)
end

/-! ## Types and casters that fit -/

/-- Every registered type goes with its caster. -/
def EntriesFit (registry : Registry) : Prop :=
  ∀ name entry, Fields.get? registry.entries name = some entry → Fits True entry.type entry.caster

theorem fits_unionOf {definition : Definition} {members : List Resolved}
    (each : ∀ member ∈ members, Fits True member.type member.caster) :
    Fits True (unionOf definition members).type (unionOf definition members).caster := by
  unfold unionOf
  simp only
  split
  · split
    · exact (each _ List.mem_cons_self).orNull
    · exact (Fits.union _ trivial).orNull
  · exact .union _ trivial

theorem fits_keyed (fit : EntriesFit registry) {property : String}
    {targets : List (String × String)} {branches : List ((String × Branch Caster) × TypeExpr)}
    (denotes : List.Forall₂ (TargetDenotes registry) targets branches) :
    Fits True (.union (branches.map Prod.snd).eraseDups)
      (.polymorph (.keyed property (Fields.ofList (branches.map Prod.fst)))) := by
  apply Fits.of_branches
  intro branch member
  obtain ⟨entry, held, rfl⟩ := List.mem_map.mp member
  -- A branch that a later one of its key replaced is gone; what is left was listed.
  have listed : entry ∈ branches.map Prod.fst :=
    (Fields.mem_insertAll held).resolve_right List.not_mem_nil
  obtain ⟨pair, pairMember, rfl⟩ := List.mem_map.mp listed
  obtain ⟨target, -, registered, present, equal⟩ := Lists.source_of_result denotes pairMember
  refine ⟨pair.2, List.mem_eraseDups.mpr (List.mem_map_of_mem pairMember), ?_⟩
  rw [equal]
  exact fit _ _ present

mutual
theorem Denotes.fits (fit : EntriesFit registry) {definition : Definition} {hint : String}
    {resolved : Resolved} :
    Denotes ownNodes patterns registry definition hint resolved →
      Fits True resolved.type resolved.caster
  | .anything _ _ => .any
  | .shaped _ _ inner => Shaped.fits fit inner

theorem Shaped.fits (fit : EntriesFit registry) {category : Category} {definition : Definition}
    {hint : String} {resolved : Resolved} :
    Shaped ownNodes patterns registry category definition hint resolved →
      Fits True resolved.type resolved.caster
  | .reference _ _ present => fit _ _ present
  | .scalar _ => .scalar _
  | .listOfAnything _ _ => .list .any
  | .list _ _ _ inner => .list (Denotes.fits fit inner)
  | .union inner => fits_unionOf (DenotesOptions.fits fit inner)
  | .conditional _ inner => by
    apply Fits.of_branches
    intro branch member
    obtain ⟨condition, listed, rfl⟩ := List.mem_map.mp member
    obtain ⟨pair, pairMember, rfl⟩ := List.mem_map.mp listed
    exact ⟨pair.2, List.mem_map_of_mem pairMember, DenotesConditions.fits fit inner pair pairMember⟩
  | .keyed _ _ _ targets => fits_keyed fit targets
  | .anonymous _ present _ => fit _ _ present

theorem DenotesOptions.fits (fit : EntriesFit registry) {hint : String}
    {options : List (Json × Nat)} {members : List Resolved} :
    DenotesOptions ownNodes patterns registry hint options members →
      ∀ member ∈ members, Fits True member.type member.caster
  | .nil _, _, held => by cases held
  | .cons _ first later, member, held => by
    cases List.mem_cons.mp held with
    | inl same => exact same ▸ Denotes.fits fit first
    | inr other => exact DenotesOptions.fits fit later member other

theorem DenotesConditions.fits (fit : EntriesFit registry) {hint : String}
    {parts : List (Json × Nat)} {conditions : List (Condition Caster × TypeExpr)} :
    DenotesConditions ownNodes patterns registry hint parts conditions →
      ∀ pair ∈ conditions, Fits True pair.2 pair.1.branch.caster
  | .nil _, _, held => by cases held
  | .cons _ _ first later, pair, held => by
    cases List.mem_cons.mp held with
    | inl same => exact same ▸ Denotes.fits fit first
    | inr other => exact DenotesConditions.fits fit later pair other
end

/-! ## Types that are known -/

theorem known_unionOf {definition : Definition} {members : List Resolved}
    (each : ∀ member ∈ members, member.type.Known registry) :
    (unionOf definition members).type.Known registry := by
  have union : (TypeExpr.union (members.map Resolved.type)).Known registry := by
    refine .union fun type listed => ?_
    obtain ⟨member, held, rfl⟩ := List.mem_map.mp listed
    exact each member held
  unfold unionOf
  simp only
  split
  · split
    · exact (each _ List.mem_cons_self).orNull
    · exact union.orNull
  · exact union

theorem known_keyed (known : registry.EntriesKnown) {targets : List (String × String)}
    {branches : List ((String × Branch Caster) × TypeExpr)}
    (denotes : List.Forall₂ (TargetDenotes registry) targets branches) :
    (TypeExpr.union (branches.map Prod.snd).eraseDups).Known registry := by
  refine .union fun type listed => ?_
  obtain ⟨branch, member, rfl⟩ := List.mem_map.mp (List.mem_eraseDups.mp listed)
  obtain ⟨pair, -, entry, present, equal⟩ := Lists.source_of_result denotes member
  rw [equal]
  exact known _ _ present

mutual
/-- What a schema stands for names what is registered, as the types registered do. -/
theorem Denotes.known (known : registry.EntriesKnown) {definition : Definition} {hint : String}
    {resolved : Resolved} :
    Denotes ownNodes patterns registry definition hint resolved → resolved.type.Known registry
  | .anything _ _ => .any
  | .shaped _ _ inner => Shaped.known known inner

theorem Shaped.known (known : registry.EntriesKnown) {category : Category}
    {definition : Definition} {hint : String} {resolved : Resolved} :
    Shaped ownNodes patterns registry category definition hint resolved →
      resolved.type.Known registry
  | .reference _ _ present => known _ _ present
  | .scalar _ => .scalar _
  | .listOfAnything _ _ => .list .any
  | .list _ _ _ inner => .list (Denotes.known known inner)
  | .union inner => known_unionOf (DenotesOptions.known known inner)
  | .conditional _ inner => .union (DenotesConditions.known known inner)
  | .keyed _ _ _ targets => known_keyed known targets
  | .anonymous _ present _ => known _ _ present

theorem DenotesOptions.known (known : registry.EntriesKnown) {hint : String}
    {options : List (Json × Nat)} {members : List Resolved} :
    DenotesOptions ownNodes patterns registry hint options members →
      ∀ member ∈ members, member.type.Known registry
  | .nil _, _, held => by cases held
  | .cons _ first later, member, held => by
    cases List.mem_cons.mp held with
    | inl same => exact same ▸ Denotes.known known first
    | inr other => exact DenotesOptions.known known later member other

theorem DenotesConditions.known (known : registry.EntriesKnown) {hint : String}
    {parts : List (Json × Nat)} {conditions : List (Condition Caster × TypeExpr)} :
    DenotesConditions ownNodes patterns registry hint parts conditions →
      ∀ type ∈ conditions.map Prod.snd, type.Known registry
  | .nil _, _, held => by cases held
  | .cons _ _ first later, type, held => by
    cases List.mem_cons.mp held with
    | inl same => exact same ▸ Denotes.known known first
    | inr other => exact DenotesConditions.known known later type other
end

/-! ## Schemas inside -/

theorem DenotesOptions.mem {hint : String} {options : List (Json × Nat)} {members : List Resolved}
    (denotes : DenotesOptions ownNodes patterns registry hint options members) {schema : Json}
    {index : Nat} (member : (schema, index) ∈ options) :
    ∃ inner resolved, Definition.ofJson schema = .ok inner ∧
      Denotes ownNodes patterns registry inner (optionHint hint index) resolved := by
  induction options generalizing members with
  | nil => cases member
  | cons option rest ih =>
    cases denotes with
    | cons node denoted later =>
      cases List.mem_cons.mp member with
      | inl same =>
        cases same
        exact ⟨_, _, node, denoted⟩
      | inr other => exact ih later other

theorem DenotesConditions.mem {hint : String} {parts : List (Json × Nat)}
    {conditions : List (Condition Caster × TypeExpr)}
    (denotes : DenotesConditions ownNodes patterns registry hint parts conditions) {part : Json}
    {index : Nat} (member : (part, index) ∈ parts) :
    ∃ constants inner resolved, constantsOf hint part index = .ok constants ∧
      Definition.ofJson ((part.member? "then").getD .null) = .ok inner ∧
      Denotes ownNodes patterns registry inner (optionHint hint index) resolved := by
  induction parts generalizing conditions with
  | nil => cases member
  | cons first rest ih =>
    cases denotes with
    | cons asked node denoted later =>
      cases List.mem_cons.mp member with
      | inl same =>
        cases same
        exact ⟨_, _, _, asked, node, denoted⟩
      | inr other => exact ih later other

/-- What a schema denotes was made of what the schemas inside it denote. -/
theorem Shaped.contents {category : Category} {definition : Definition} {name : String}
    {resolved : Resolved}
    (shaped : Shaped ownNodes patterns registry category definition name resolved)
    (inPlace : isAnonymous category = false) {inner : Definition} {hint : String}
    (part : Part name definition category inner hint) :
    ∃ resolved, Denotes ownNodes patterns registry inner hint resolved := by
  cases part with
  | property => cases inPlace
  | additional => cases inPlace
  | parent => cases inPlace
  | item declared node =>
    cases shaped with
    | listOfAnything _ items =>
      rw [declared] at items
      cases items with
      | inl none => cases none
      | inr anything =>
        cases anything
        cases node
    | list items _ own denotes =>
      rw [declared] at items
      cases items
      rw [own] at node
      cases node
      exact ⟨_, denotes⟩
    | anonymous named => cases named
  | option declared node =>
    cases shaped with
    | union denotes =>
      obtain ⟨_, resolved, own, inside⟩ := denotes.mem declared
      rw [node] at own
      cases own
      exact ⟨resolved, inside⟩
    | anonymous named => cases named
  | branch allOf declared node =>
    cases shaped with
    | conditional own denotes =>
      rw [allOf] at own
      cases own
      obtain ⟨_, _, resolved, -, found, inside⟩ := denotes.mem declared
      rw [node] at found
      cases found
      exact ⟨resolved, inside⟩
    | keyed _ absent =>
      rw [allOf] at absent
      cases absent
    | anonymous named => cases named

end TypedSchema.Compile
