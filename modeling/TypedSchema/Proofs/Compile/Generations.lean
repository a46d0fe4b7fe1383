import Mathlib.Data.List.Perm.Subperm
import Mathlib.Logic.Relation
import TypedSchema.Proofs.Compile.Compiled

/-!
Generations of a compiled registry. No type is among its own ancestors, so a line of ancestors has
no name twice and is no longer than there are types; the generations that filling allows for reach
all leaves of every type.
-/

namespace TypedSchema

namespace Registry

/-- The initializer of a type runs that of a parent. -/
def Initializes (registry : Registry) (parent child : String) : Prop :=
  ∃ composite signature parents, Fields.get? registry.composites child = some composite ∧
    composite.initializer = .combined signature parents ∧ parent ∈ parents

theorem Initializes.inv {registry : Registry} {parent child : String}
    (initializes : registry.Initializes parent child) {composite : Composite}
    (present : Fields.get? registry.composites child = some composite) :
    ∃ signature parents, composite.initializer = .combined signature parents ∧
      parent ∈ parents := by
  obtain ⟨own, signature, parents, held, combined, member⟩ := initializes
  rw [present] at held
  cases held
  exact ⟨signature, parents, combined, member⟩

/-- No initializer comes back to itself. -/
def Acyclic (registry : Registry) : Prop :=
  ∀ name, ¬Relation.TransGen registry.Initializes name name

end Registry

namespace Compile

variable {registry : Registry}

theorem Inherits.accessible {composite : Composite}
    (inherits : Inherits (Fields.get? registry.composites) composite) {name : String}
    (present : Fields.get? registry.composites name = some composite) :
    Acc registry.Initializes name := by
  induction inherits generalizing name with
  | custom _ direct =>
    refine .intro name fun parent above => ?_
    obtain ⟨signature, parents, combined, -⟩ := above.inv present
    rw [direct] at combined
    cases combined
  | @passthrough composite above target _ abovePresent _ _ _ initializer _ ih =>
    -- The type runs the parents of the type that it stands for.
    have whole := ih abovePresent
    refine .intro name fun parent below => ?_
    obtain ⟨signature, parents, combined, member⟩ := below.inv present
    rw [initializer] at combined
    cases shape : above.initializer with
    | direct =>
      rw [shape] at combined
      cases combined
    | combined theirs theirParents =>
      rw [shape] at combined
      cases combined
      exact whole.inv ⟨above, theirs, parents, abovePresent, shape, member⟩
  | @combined composite names aboves _ abovesPresent _ _ _ initializer _ ih =>
    refine .intro name fun parent below => ?_
    obtain ⟨signature, parents, combined, member⟩ := below.inv present
    rw [initializer] at combined
    cases combined
    obtain ⟨above, among, found⟩ := Lists.result_of_source abovesPresent member
    exact ih above among found

theorem not_self_of_acc {α : Type} {related : α → α → Prop} {item : α} (acc : Acc related item) :
    ¬related item item := by
  induction acc with
  | intro item _ ih => exact fun self => ih item self self

theorem Compiled.acyclic {document : Document} {workspace : Workspace}
    (compiled : Compiled document workspace registry) : registry.Acyclic := by
  intro name cycle
  -- Whoever has a parent is described, so the circle can be entered.
  have described : ∃ composite, Fields.get? registry.composites name = some composite := by
    cases cycle with
    | single step => exact ⟨_, step.choose_spec.choose_spec.choose_spec.1⟩
    | tail _ step => exact ⟨_, step.choose_spec.choose_spec.choose_spec.1⟩
  obtain ⟨composite, present⟩ := described
  exact not_self_of_acc ((compiled.inherits present).accessible present).transGen cycle

end Compile

namespace Decode

variable {registry : Registry}

/-- Below the heirs that have been passed on the way there are as many generations left as there are
types that are not among them. -/
theorem leaves_below (closed : registry.Closed) (acyclic : registry.Acyclic) {depth : Nat}
    {name : String} {composite : Composite}
    (present : Fields.get? registry.composites name = some composite) {heirs : List String}
    (distinct : heirs.Nodup) (listed : heirs ⊆ Fields.names registry.composites)
    (below : ∀ heir ∈ heirs, Relation.TransGen registry.Initializes name heir)
    (enough : registry.composites.length < depth + heirs.length) :
    ∃ found, leaves registry depth composite.initializer = some found := by
  induction depth generalizing name composite heirs with
  | zero =>
    have fewer := (List.subperm_of_subset distinct listed).length_le
    rw [Fields.names, List.length_map] at fewer
    omega
  | succ depth ih =>
    cases shape : composite.initializer with
    | direct signature => exact ⟨[signature], rfl⟩
    | combined signature parents =>
      have fresh : name ∉ heirs := fun heir => acyclic name (below name heir)
      have own : name ∈ Fields.names registry.composites :=
        Fields.mem_names_iff.mpr ⟨composite, present⟩
      obtain ⟨all, held⟩ : ∃ all, parentLeaves registry depth parents = some all := by
        simp only [parentLeaves_iff]
        refine Lists.exists_results fun parent member => ?_
        have known :=
          closed.initializers name composite present signature parents shape parent member
        obtain ⟨above, found⟩ := known.described
        have step : registry.Initializes parent name :=
          ⟨composite, signature, parents, present, shape, member⟩
        obtain ⟨leafs, leafsHeld⟩ := ih found
          (List.nodup_cons.mpr ⟨fresh, distinct⟩) (List.cons_subset.mpr ⟨own, listed⟩)
          (fun heir among => by
            cases List.mem_cons.mp among with
            | inl same => exact same ▸ .single step
            | inr later => exact .head step (below heir later))
          (by rw [List.length_cons]; omega)
        exact ⟨leafs, above, found, leafsHeld⟩
      exact ⟨all.flatten, by rw [leaves_combined, held]; rfl⟩

end Decode

/-- All leaves of every type are reached. -/
def Registry.Reached (registry : Registry) : Prop :=
  ∀ name composite, Fields.get? registry.composites name = some composite →
    ∃ found, Decode.leaves registry (Decode.generations registry) composite.initializer = some found

theorem Document.compile_reached {document : Document} {registry : Registry}
    (compiled : document.compile = .ok registry) : registry.Reached := by
  obtain ⟨workspace, made⟩ := Compile.compile_ok compiled
  intro name composite present
  exact Decode.leaves_below made.closed made.acyclic present List.nodup_nil (List.nil_subset _)
    nofun (by rw [Decode.generations, List.length_nil]; omega)

end TypedSchema
