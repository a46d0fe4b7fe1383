import Mathlib.Logic.Relation
import TypedSchema.Proofs.Registry.WellFormed

/-!
What a cast may come to, and which casts can be undone: those without polymorphs, without literals
that are no ids, and without parents that disagree on what they share. The leaves of a type then
declare exactly what its table holds.
-/

namespace TypedSchema

namespace Registry

/-- The casters that a cast may come to: those of items, branches, properties and keys that are not
declared, and the parents of composite types. -/
inductive Reaches (registry : Registry) (start : Caster) : Caster → Prop where
  | self : Reaches registry start start
  | item {item : Caster} (outer : Reaches registry start (.list item)) :
    Reaches registry start item
  | branch {dispatcher : Dispatcher Caster} {branch : Branch Caster}
    (outer : Reaches registry start (.polymorph dispatcher))
    (listed : branch ∈ dispatcher.branches) : Reaches registry start branch.caster
  | property {name : String} {composite : Composite} {property : Property}
    (outer : Reaches registry start (.composite name))
    (present : Fields.get? registry.composites name = some composite)
    (declared : property ∈ Fields.values composite.properties) :
    Reaches registry start property.caster
  | catchAll {name : String} {composite : Composite} {catchAll : CatchAll}
    (outer : Reaches registry start (.composite name))
    (present : Fields.get? registry.composites name = some composite)
    (takes : composite.catchAll = some catchAll) : Reaches registry start catchAll.caster
  | parent {name parent : String} {composite : Composite}
    (outer : Reaches registry start (.composite name))
    (present : Fields.get? registry.composites name = some composite)
    (above : parent ∈ composite.parents) : Reaches registry start (.composite parent)

theorem Reaches.trans {registry : Registry} {first second third : Caster}
    (outer : registry.Reaches first second) (inner : registry.Reaches second third) :
    registry.Reaches first third := by
  induction inner with
  | self => exact outer
  | item _ ih => exact .item ih
  | branch _ listed ih => exact .branch ih listed
  | property _ present declared ih => exact .property ih present declared
  | catchAll _ present takes ih => exact .catchAll ih present takes
  | parent _ present above ih => exact .parent ih present above

/-- What parents share they declare alike. -/
structure ParentsAgree (registry : Registry) (parents : List String) : Prop where
  properties : ∀ first ∈ parents, ∀ second ∈ parents, ∀ left right,
    Fields.get? registry.composites first = some left →
    Fields.get? registry.composites second = some right →
      ∀ name property other, Fields.get? left.properties name = some property →
        Fields.get? right.properties name = some other →
          property.type = other.type ∧ property.caster = other.caster
  catchAll : ∀ first ∈ parents, ∀ second ∈ parents, ∀ left right,
    Fields.get? registry.composites first = some left →
    Fields.get? registry.composites second = some right →
      ∀ way other, left.catchAll = some way → right.catchAll = some other → way = other

/-- A type inherits from its parents. -/
def ParentOf (registry : Registry) (child parent : String) : Prop :=
  ∃ composite, Fields.get? registry.composites child = some composite ∧ parent ∈ composite.parents

/-- A type and everything that it inherits from are put together of parents that agree. -/
def AncestorsAgree (registry : Registry) (name : String) : Prop :=
  ∀ ancestor composite parents, Relation.ReflTransGen registry.ParentOf name ancestor →
    Fields.get? registry.composites ancestor = some composite →
      composite.lineage = .combined parents → registry.ParentsAgree parents

theorem AncestorsAgree.above {registry : Registry} {name ancestor : String}
    (agree : registry.AncestorsAgree name)
    (inherits : Relation.ReflTransGen registry.ParentOf name ancestor) :
    registry.AncestorsAgree ancestor := fun top composite parents upwards =>
  agree top composite parents (inherits.trans upwards)

theorem Reaches.ancestor {registry : Registry} {name ancestor : String}
    (inherits : Relation.ReflTransGen registry.ParentOf name ancestor) :
    registry.Reaches (.composite name) (.composite ancestor) := by
  induction inherits with
  | refl => exact .self
  | tail _ step ih =>
    obtain ⟨composite, present, above⟩ := step
    exact ih.parent present above

/-- Literals that are found again by the ids that they give. -/
def IsKey : Json → Prop
  | .string _ => True
  | .bool _ => True
  | .integer value => Value.isInteger value = true
  | _ => False

/-- Casters whose results come back when they are written and cast again. -/
structure Invertible (registry : Registry) (caster : Caster) : Prop where
  direct : ∀ dispatcher, ¬registry.Reaches caster (.polymorph dispatcher)
  literals : ∀ name enumeration, registry.Reaches caster (.enumeration name) →
    Fields.get? registry.enumerations name = some enumeration →
      ∀ member ∈ Fields.values enumeration.members, ∀ literal, member.literal = some literal →
        IsKey literal
  agree : ∀ name composite parents, registry.Reaches caster (.composite name) →
    Fields.get? registry.composites name = some composite →
      composite.lineage = .combined parents → registry.ParentsAgree parents

/-- Casters whose results come back when they are written and cast again, as long as every
dispatcher chooses the same branch again. -/
structure Restorable (registry : Registry) (caster : Caster) : Prop where
  literals : ∀ name enumeration, registry.Reaches caster (.enumeration name) →
    Fields.get? registry.enumerations name = some enumeration →
      ∀ member ∈ Fields.values enumeration.members, ∀ literal, member.literal = some literal →
        IsKey literal
  agree : ∀ name composite parents, registry.Reaches caster (.composite name) →
    Fields.get? registry.composites name = some composite →
      composite.lineage = .combined parents → registry.ParentsAgree parents

theorem Invertible.restorable {registry : Registry} {caster : Caster}
    (invertible : registry.Invertible caster) : registry.Restorable caster :=
  ⟨invertible.literals, invertible.agree⟩

theorem Restorable.inner {registry : Registry} {outer inner : Caster}
    (restorable : registry.Restorable outer) (reaches : registry.Reaches outer inner) :
    registry.Restorable inner where
  literals := fun name enumeration found =>
    restorable.literals name enumeration (reaches.trans found)
  agree := fun name composite parents found =>
    restorable.agree name composite parents (reaches.trans found)

theorem Restorable.ancestorsAgree {registry : Registry} {name : String}
    (restorable : registry.Restorable (.composite name)) : registry.AncestorsAgree name :=
  fun ancestor composite parents inherits =>
    restorable.agree ancestor composite parents (.ancestor inherits)

/-- Initializers that are combined are those of types with parents, or of heirs of such types. -/
def Descends (registry : Registry) : Prop :=
  ∀ name composite signature parents, Fields.get? registry.composites name = some composite →
    composite.initializer = .combined signature parents →
      ∃ ancestor above, Relation.ReflTransGen registry.ParentOf name ancestor ∧
        Fields.get? registry.composites ancestor = some above ∧
        above.lineage = .combined parents

end Registry

/-! ## Leaves -/

namespace Decode

variable {registry : Registry}

/-- A leaf that declares what it shares with a composite type like the type itself. -/
structure Agrees (leaf : Signature) (composite : Composite) : Prop where
  params : ∀ param ∈ leaf.params, ∃ property,
    Fields.get? composite.properties param.name = some property ∧
      param.type = property.type ∧ param.caster = property.caster
  catchAll : ∀ way, leaf.catchAll = some way → composite.catchAll = some way

theorem Agrees.direct {composite : Composite} (own : composite.WellFormed registry)
    {signature : Signature} (direct : composite.initializer = .direct signature) :
    Agrees signature composite := by
  have same := Composite.signature_of_direct direct
  constructor
  · intro param member
    rw [← same, own.params] at member
    exact ⟨param, own.property_of_mem member, rfl, rfl⟩
  · intro way takes
    rw [← own.catchAll, same]
    exact takes

/-- What agrees with a parent agrees with the type that is put together of parents that agree. -/
theorem Agrees.merged {parents : List String} (agree : registry.ParentsAgree parents)
    {composites : List Composite}
    (found : parents.mapM (Fields.get? registry.composites) = some composites)
    (distinct : ∀ name composite, Fields.get? registry.composites name = some composite →
      Fields.Distinct composite.properties)
    {composite : Composite}
    (properties : composite.properties = Composite.mergedProperties composites)
    (catchAll : composite.catchAll = Composite.mergedCatchAll composites) {parent : String}
    (member : parent ∈ parents) {above : Composite}
    (present : Fields.get? registry.composites parent = some above) {leaf : Signature}
    (agrees : Agrees leaf above) : Agrees leaf composite := by
  have among := Composite.mem_of_mapM found member present
  have each := Lists.mapM_eq_some.mp found
  constructor
  · intro param declared
    obtain ⟨property, held, type, caster⟩ := agrees.params param declared
    have merged : param.name ∈ Fields.names composite.properties := by
      rw [properties]
      exact Composite.mem_mergedProperties among (Fields.mem_names_iff.mpr ⟨property, held⟩)
    obtain ⟨last, lastHeld⟩ := Fields.mem_names_iff.mp merged
    -- The property in the table is that of some parent, which declares it as this one does.
    have listed : (param.name, last) ∈ composites.flatMap Composite.properties := by
      have inserted := Fields.mem_of_get? lastHeld
      rw [properties, Composite.mergedProperties_eq] at inserted
      exact (Fields.mem_insertAll inserted).resolve_right List.not_mem_nil
    obtain ⟨source, sourceMember, sourceHeld⟩ := List.mem_flatMap.mp listed
    obtain ⟨other, otherMember, otherPresent⟩ := Lists.source_of_result each sourceMember
    obtain ⟨sameType, sameCaster⟩ := agree.properties parent member other otherMember above source
      present otherPresent param.name property last held
      (Fields.get?_of_mem (distinct other source otherPresent) sourceHeld)
    exact ⟨last, lastHeld, type.trans sameType, caster.trans sameCaster⟩
  · intro way takes
    have own := agrees.catchAll way takes
    have some : composite.catchAll ≠ none := by
      rw [catchAll]
      exact Composite.mergedCatchAll_ne_none among (own ▸ Option.some_ne_none way)
    obtain ⟨last, lastTakes⟩ := Option.ne_none_iff_exists'.mp some
    have kept := lastTakes
    rw [catchAll, Composite.mergedCatchAll_eq] at kept
    obtain ⟨source, sourceMember, sourceTakes⟩ :=
      List.mem_filterMap.mp (List.mem_of_getLast? kept)
    obtain ⟨other, otherMember, otherPresent⟩ := Lists.source_of_result each sourceMember
    rw [lastTakes, agree.catchAll parent member other otherMember above source present otherPresent
      way last own sourceTakes]

/-- With parents that agree, every leaf declares what the table of the type has. -/
theorem leaves_agree (wellFormed : registry.WellFormed) (descends : registry.Descends)
    {depth : Nat} {name : String} {composite : Composite}
    (agree : registry.AncestorsAgree name)
    (present : Fields.get? registry.composites name = some composite) {found : List Signature}
    (held : leaves registry depth composite.initializer = some found) {leaf : Signature}
    (member : leaf ∈ found) : Agrees leaf composite := by
  generalize shape : composite.initializer = initializer at held
  induction depth, initializer using leaves.induct generalizing name composite found with
  | case1 depth signature =>
    cases (leaves_direct depth signature).symm.trans held
    rw [List.mem_singleton.mp member]
    exact .direct (wellFormed.composites name composite present).2 shape
  | case2 signature parents => cases held
  | case3 depth signature parents ih =>
    rw [leaves_combined, Option.map_eq_some_iff] at held
    obtain ⟨all, parentsHeld, rfl⟩ := held
    obtain ⟨composites, composed, properties, catchAll⟩ :=
      (wellFormed.composites name composite present).2.merged signature parents shape
    obtain ⟨ancestor, top, inherits, topPresent, lineage⟩ :=
      descends name composite signature parents present shape
    have together := agree ancestor top parents inherits topPresent lineage
    obtain ⟨parent, parentMember, above, leafs, abovePresent, aboveLeaves, leafMember⟩ :=
      mem_parentLeaves parentsHeld member
    have upwards : registry.ParentOf ancestor parent := by
      refine ⟨top, topPresent, ?_⟩
      rw [Composite.parents, lineage]
      exact parentMember
    have agrees :=
      ih above (agree.above (inherits.tail upwards)) abovePresent leafMember rfl aboveLeaves
    exact .merged together composed
      (fun name composite present => (wellFormed.composites name composite present).2.distinct)
      properties catchAll parentMember abovePresent agrees

end Decode

end TypedSchema
