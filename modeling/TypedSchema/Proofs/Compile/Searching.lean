import TypedSchema.Proofs.Compile.Failing

/-!
The search for what a name waits for. Names whose registration is under way lead to the goal at hand,
so when one of them is asked for again, some name waits for itself.
-/

namespace TypedSchema.Compile

open Relation (TransGen ReflTransGen)

variable {document : Document}

/-! ## Schemas resolved with another -/

section

variable {owner hint : String} {outer inner : Definition}

theorem Within.trans {name : String} {middle : Definition}
    (earlier : Within owner outer middle name) (later : Within name middle inner hint) :
    Within owner outer inner hint := by
  induction later with
  | self => exact earlier
  | part _ shape other part ih => exact ih.part shape other part

theorem Within.inside (within : Within owner outer inner hint) :
    inner = outer ∧ hint = owner ∨ Json.Inside inner.toJson outer.toJson := by
  induction within with
  | self => exact .inl ⟨rfl, rfl⟩
  | part _ _ _ part ih =>
    refine .inr ?_
    rcases ih with ⟨rfl, rfl⟩ | deeper
    · exact part.inside
    · exact part.inside.trans deeper

/-- A schema inside one that is resolved with another is resolved with that as well. -/
theorem Within.extend {name : String} {middle : Definition} {category : Category}
    (within : Within owner outer middle name) (shape : middle.shape = .ok category)
    (other : category ≠ .custom) (part : Part name middle category inner hint) :
    Within owner outer inner hint ∧ Json.Inside inner.toJson outer.toJson := by
  refine ⟨within.part shape other part, ?_⟩
  rcases within.inside with ⟨rfl, rfl⟩ | deeper
  · exact part.inside
  · exact part.inside.trans deeper

end

/-! ## Names under way -/

/-- A name leads to a schema that is resolved with something that the name waits for. -/
def LeadsInside (document : Document) (name : String) (definition : Definition)
    (hint : String) : Prop :=
  ∃ owner outer category, Named document owner outer category ∧
    ReflTransGen (Awaits document) name owner ∧ Within owner outer definition hint ∧
    Json.Inside definition.toJson outer.toJson

/-- How the name of a registration under way leads to a goal. -/
inductive Leads (document : Document) (name : String) : Goal → Prop where
  | awaits {target : String} (path : TransGen (Awaits document) name target) :
    Leads document name (.named target)
  | own {inner : Definition} {target : String} {category : Category}
    (named : Named document target inner category)
    (inside : LeadsInside document name inner target) : Leads document name (.named target)
  | inline {inner : Definition} {hint : String} (inside : LeadsInside document name inner hint) :
    Leads document name (.inline inner hint)

/-- What leads to a schema leads to the goals that the schema asks for. -/
theorem Leads.asked {name owner hint : String} {outer definition : Definition}
    {category : Category} (named : Named document owner outer category)
    (path : ReflTransGen (Awaits document) name owner)
    (within : Within owner outer definition hint) {workspace : Workspace} {goal : Goal}
    (asked : Asked hint definition workspace goal) : Leads document name goal := by
  have placed := within.placed named.placed
  cases asked with
  | reference refers =>
    exact .awaits (.tail' path ⟨outer, category, definition, hint, named, within, refers⟩)
  | @part own _ _ shape inPlace part =>
    have other : own ≠ .custom := by
      rintro rfl
      cases inPlace
    obtain ⟨deeper, inside⟩ := within.extend shape other part
    exact .inline ⟨owner, outer, category, named, path, deeper, inside⟩
  | parent shape part =>
    obtain ⟨deeper, inside⟩ := within.extend shape nofun part
    have own := placed.part shape part
    cases part with
    | parent _ _ innerShape anonymous =>
      exact .own ⟨own, innerShape, .inr anonymous⟩
        ⟨owner, outer, category, named, path, deeper, inside⟩

section

variable (apart : NamesApart document)

include apart

/-- A name that leads to itself is part of a cycle, or leads to one. -/
theorem Leads.cyclic {name : String} (leads : Leads document name (.named name)) :
    Cyclic document := by
  cases leads with
  | awaits path => exact ⟨name, path⟩
  | own named inside =>
    obtain ⟨owner, outer, category, ownerNamed, path, within, inside⟩ := inside
    rcases ReflTransGen.cases_head path with rfl | ⟨next, first, rest⟩
    · -- No schema stands inside itself.
      have same := apart _ _ _ _ _ named ownerNamed
      subst same
      exact absurd inside.depth_lt (Nat.lt_irrefl _)
    · -- The owner waits for whatever the name waits for.
      obtain ⟨schema, own, inner, hint, other, innerWithin, refers⟩ := first
      have same := apart _ _ _ _ _ named other
      subst same
      exact ⟨next, .tail' rest
        ⟨outer, category, inner, hint, ownerNamed, within.trans innerWithin, refers⟩⟩

/-- What leads to a name under which a schema is known leads to the goals that the schema asks for. -/
theorem Leads.asked_named {name target : String} {definition : Definition} {category : Category}
    (named : Named document target definition category)
    (leads : Leads document name (.named target)) {workspace : Workspace} {goal : Goal}
    (asked : Asked target definition workspace goal) : Leads document name goal := by
  cases leads with
  | awaits path => exact .asked named path.to_reflTransGen .self asked
  | own other inside =>
    obtain ⟨owner, outer, own, ownerNamed, path, within, -⟩ := inside
    have same := apart _ _ _ _ _ other named
    subst same
    exact .asked ownerNamed path within asked

omit apart in
theorem Leads.asked_inline {name hint : String} {definition : Definition}
    (placed : Placed document definition hint)
    (leads : Leads document name (.inline definition hint)) {workspace : Workspace} {goal : Goal}
    (asked : AskedInPlace definition hint workspace goal) : Leads document name goal := by
  cases leads with
  | inline inside =>
    cases asked with
    | own shape anonymous => exact .own ⟨placed, shape, .inr anonymous⟩ inside
    | inner asked =>
      obtain ⟨owner, outer, own, ownerNamed, path, within, -⟩ := inside
      exact .asked ownerNamed path within asked

omit apart in
theorem Asked.placed {owner : String} {definition : Definition}
    (placed : Placed document definition owner) {workspace : Workspace} {goal : Goal}
    (asked : Asked owner definition workspace goal) : GoalPlaced document goal := by
  cases asked with
  | reference => trivial
  | part shape _ part => exact placed.part shape part
  | parent => trivial

/-- A search that meets a name again while its registration is under way has met a cycle. -/
theorem solve_circular (layers : Nat) (resolving : List String) (goal : Goal) (before : Workspace)
    {error : Error} (sound : Sound document before) (placed : GoalPlaced document goal)
    (leads : ∀ name ∈ resolving, Leads document name goal)
    (ran : (solve (patternsOf document) layers resolving goal).run before = .error error)
    (circular : Circular error) : Cyclic document := by
  induction layers generalizing resolving goal before with
  | zero =>
    obtain rfl := run_throw_error.mp ran
    cases circular.choose_spec
  | succ layers ih =>
    cases goal with
    | named name =>
      cases resolveNamed_fails sound (solve_sound document layers) ran with
      | circular _ under => exact (leads name under).cyclic apart
      | unknown _ _ same =>
        subst same
        cases circular.choose_spec
      | inside _ _ known fails =>
        have named := sound.known _ _ known
        cases fails with
        | hopeless _ _ own => exact absurd circular own
        | goal later _ asked failed =>
          refine ih (name :: resolving) _ _ later (asked.placed named.placed) ?_ failed
          intro other under
          cases List.mem_cons.mp under with
          | inl same =>
            subst same
            exact .asked named .refl .self asked
          | inr old => exact (leads other old).asked_named apart named asked
    | inline definition hint =>
      cases resolveShape_fails sound (solve_sound document layers resolving) placed ran with
      | hopeless _ _ own => exact absurd circular own
      | @goal between inner later _ asked failed =>
        have inside : GoalPlaced document inner := by
          cases asked with
          | own => trivial
          | inner asked => exact asked.placed placed
        exact ih resolving _ _ later inside
          (fun other under => (leads other under).asked_inline placed asked) failed

end

end TypedSchema.Compile
