import TypedSchema.Proofs.Compile.Completing
import TypedSchema.Proofs.Registry.Subtyping

/-!
The order of inheritance. Parents are registered before their heirs, so no type inherits from itself
by way of others, and subtypes are partially ordered.
-/

namespace TypedSchema

open Compile
open Registry (Search)
open Relation (ReflTransGen TransGen)

namespace Registry

/-- Heirs stand behind their parents. -/
def Ascends (registry : Registry) : Prop :=
  ∀ child parent, registry.ParentOf child parent →
    position registry parent < position registry child

variable {registry : Registry} (ascends : registry.Ascends)

include ascends

theorem Ascends.position_lt {child ancestor : String}
    (inherits : TransGen registry.ParentOf child ancestor) :
    position registry ancestor < position registry child := by
  induction inherits with
  | single link => exact ascends _ _ link
  | tail _ link ih => exact Nat.lt_trans (ascends _ _ link) ih

theorem Ascends.acyclic (name : String) : ¬TransGen registry.ParentOf name name := fun cycle =>
  Nat.lt_irrefl _ (ascends.position_lt cycle)

/-- Types that inherit from each other are the same. -/
theorem Ascends.antisymm {first second : String}
    (below : ReflTransGen registry.ParentOf first second)
    (above : ReflTransGen registry.ParentOf second first) : first = second := by
  cases Relation.reflTransGen_iff_eq_or_transGen.mp below with
  | inl same => exact same.symm
  | inr strictly => exact absurd (strictly.trans_left above) (ascends.acyclic first)

theorem Ascends.partialOrder :
    IsPartialOrder String fun child ancestor => registry.isSubtype child ancestor = true where
  refl := registry.isSubtype_refl
  trans := fun _ _ _ below above =>
    isSubtype_iff.mpr ((isSubtype_iff.mp below).trans (isSubtype_iff.mp above))
  antisymm := fun _ _ below above =>
    ascends.antisymm (isSubtype_iff.mp below) (isSubtype_iff.mp above)

end Registry

/-- Completing types leaves their parents as they were, and the order of registration as well. -/
theorem Compile.Compiled.ascends {document : Document} {workspace : Workspace} {registry : Registry}
    (compiled : Compiled document workspace registry) : registry.Ascends := by
  rintro child parent ⟨composite, present, member⟩
  obtain ⟨-, -, old, started, lineage, -⟩ :=
    compiled.completed.composites child composite present
  rw [Composite.parents, lineage, ← Composite.parents] at member
  have earlier := compiled.sound.parent_earlier started member
  unfold position at earlier ⊢
  rwa [compiled.completed.entries]

namespace Document

/-- Subtypes are partially ordered. In every registry, whatever the links between its types, the
search for an ancestor ends with the right answer in whichever order it takes the names, and the
subtypes of a type are those from which it is reached by links to parents. In the registry of a
document, parents are registered before their heirs, no type inherits from itself by way of others,
and the subtypes are ordered. -/
theorem subtypes_ordered :
    (∀ (registry : Registry) (child ancestor : String),
      (WellFounded fun after before => Search.Step registry ancestor before after) ∧
      (∀ final, ReflTransGen (Search.Step registry ancestor) ⟨[child], []⟩ final →
        (ancestor ∈ final.pending → ReflTransGen registry.ParentOf child ancestor) ∧
        (final.pending = [] → ¬ReflTransGen registry.ParentOf child ancestor)) ∧
      (registry.isSubtype child ancestor = true ↔
        ReflTransGen registry.ParentOf child ancestor)) ∧
    ∀ (document : Document) (registry : Registry), document.compile = .ok registry →
      (∀ name composite, registry.composite name = .ok composite → ∀ parent ∈ composite.parents,
        registry.contains parent = true ∧
          position registry parent < position registry name) ∧
      (∀ name, ¬TransGen registry.ParentOf name name) ∧
      IsPartialOrder String fun child ancestor => registry.isSubtype child ancestor = true := by
  constructor
  · intro registry child ancestor
    exact ⟨Search.terminates registry ancestor, fun _ run => Search.answers run,
      Registry.isSubtype_iff⟩
  · intro document registry compiled
    obtain ⟨workspace, made⟩ := compile_ok compiled
    have ascends := made.ascends
    refine ⟨?_, ascends.acyclic, ascends.partialOrder⟩
    intro name composite found parent member
    have present := Registry.found_ok.mp found
    obtain ⟨entry, registered, -⟩ := (made.closed.parents name composite present parent member).1
    exact ⟨Fields.has_iff.mpr (Fields.mem_names_iff.mpr ⟨entry, registered⟩),
      ascends name parent ⟨composite, present, member⟩⟩

/-- Managers are employees by another name, and employees are persons and members. -/
def staff : Document where
  definitions := [
    ("Manager", ⟨[("$ref", .string "#/$defs/Employee")]⟩),
    ("Employee", ⟨[
      ("allOf", .array [
        .object [("$ref", .string "#/$defs/Person")],
        .object [("$ref", .string "#/$defs/Member")]])]⟩),
    ("Person", ⟨[
      ("type", .string "object"),
      ("properties", .object [("Name", .object [("type", .string "string")])])]⟩),
    ("Member", ⟨[
      ("type", .string "object"),
      ("properties", .object [("Since", .object [("type", .string "integer")])])]⟩)]

theorem subtypes_ordered_staff :
    ∃ registry, staff.compile = .ok registry ∧
      ReflTransGen registry.ParentOf "Manager" "Person" ∧
      ¬ReflTransGen registry.ParentOf "Person" "Manager" ∧
      position registry "Employee" < position registry "Manager" ∧
      IsPartialOrder String fun child ancestor => registry.isSubtype child ancestor = true := by
  have inherits : ∃ registry ∈ staff.compile.toOption,
      registry.isSubtype "Manager" "Person" = true ∧ registry.parentsOf "Person" = [] ∧
      ∃ composite ∈ (registry.composite "Manager").toOption, "Employee" ∈ composite.parents := by
    decide +kernel
  obtain ⟨registry, made, below, top, composite, found, member⟩ := inherits
  have compiled := Outcomes.toOption_iff.mp made
  obtain ⟨search, orders⟩ := subtypes_ordered
  obtain ⟨earlier, -, ordered⟩ := orders staff registry compiled
  obtain ⟨-, first⟩ := earlier "Manager" composite (Outcomes.toOption_iff.mp found) _ member
  have upwards := (search registry "Manager" "Person").2.2.mp below
  -- The search from the top ends after one step.
  have step : Search.Step registry "Manager" ⟨["Person"], []⟩ ⟨registry.parentsOf "Person" ++ [], _⟩ :=
    .expand (.refl _) (by decide) List.not_mem_nil
  have missed := ((search registry "Person" "Manager").2.1 _ (.single step)).2 (by rw [top]; rfl)
  exact ⟨registry, compiled, upwards, missed, first, ordered⟩

end Document

end TypedSchema
