import TypedSchema.Types.Caster

/-!
Which casters go with which types. Every value that a caster gives is then of the type, except under
a plain union, whose data is left as it is.
-/

namespace TypedSchema

/-- The caster is one for the type. Only with `plainUnions` may there be unions among them whose
data is left as it is; without them every branch of a polymorph has a member of the union to go
with. -/
inductive Fits (plainUnions : Prop) : TypeExpr → Caster → Prop where
  | any : Fits plainUnions .any .identity
  | scalar (type : Scalar) : Fits plainUnions (.scalar type) (.scalar type)
  | list {item : TypeExpr} {caster : Caster} (inner : Fits plainUnions item caster) :
    Fits plainUnions (.list item) (.list caster)
  | union (members : List TypeExpr) (allowed : plainUnions) :
    Fits plainUnions (.union members) .identity
  | optional {type : TypeExpr} {caster : Caster} (inner : Fits plainUnions type caster) :
    Fits plainUnions (.optional type) caster
  | enumeration (name : String) : Fits plainUnions (.enumeration name) (.enumeration name)
  | composite (name : String) : Fits plainUnions (.composite name) (.composite name)
  | polymorph {members : List TypeExpr} {dispatcher : Dispatcher Caster}
    (typeOf : Branch Caster → TypeExpr)
    (listed : ∀ branch ∈ dispatcher.branches, typeOf branch ∈ members)
    (inner : ∀ branch ∈ dispatcher.branches, Fits plainUnions (typeOf branch) branch.caster) :
    Fits plainUnions (.union members) (.polymorph dispatcher)

namespace Fits

variable {plainUnions : Prop} {type : TypeExpr} {caster : Caster}

theorem orNull (fits : Fits plainUnions type caster) : Fits plainUnions type.orNull caster := by
  cases fits with
  | any => exact .any
  | optional inner => exact .optional inner
  | scalar => exact .optional (.scalar _)
  | list inner => exact .optional (.list inner)
  | union members allowed => exact .optional (.union members allowed)
  | enumeration name => exact .optional (.enumeration name)
  | composite name => exact .optional (.composite name)
  | polymorph typeOf listed inner => exact .optional (.polymorph typeOf listed inner)

/-- What fits without plain unions fits with them. -/
theorem mono {weaker : Prop} (fits : Fits False type caster) : Fits weaker type caster := by
  induction fits with
  | any => exact .any
  | scalar type => exact .scalar type
  | list _ ih => exact .list ih
  | union members impossible => exact impossible.elim
  | optional _ ih => exact .optional ih
  | enumeration name => exact .enumeration name
  | composite name => exact .composite name
  | polymorph typeOf listed _ ih => exact .polymorph typeOf listed ih

/-- Every branch needs some member of the union to go with; which one is a matter of choice. -/
theorem of_branches {members : List TypeExpr} {dispatcher : Dispatcher Caster}
    (each : ∀ branch ∈ dispatcher.branches, ∃ member ∈ members,
      Fits plainUnions member branch.caster) :
    Fits plainUnions (.union members) (.polymorph dispatcher) := by
  classical
  let typeOf : Branch Caster → TypeExpr := fun branch =>
    if present : branch ∈ dispatcher.branches then (each branch present).choose else .any
  have chosen : ∀ branch ∈ dispatcher.branches,
      typeOf branch ∈ members ∧ Fits plainUnions (typeOf branch) branch.caster := by
    intro branch present
    simp only [typeOf, dif_pos present]
    exact (each branch present).choose_spec
  exact .polymorph typeOf (fun branch present => (chosen branch present).1)
    fun branch present => (chosen branch present).2

end Fits

/-! ## Plain unions -/

namespace Caster

theorem height_pos (caster : Caster) : 0 < caster.height := by
  cases caster with
  | polymorph dispatcher => cases dispatcher <;> simp [height]
  | _ => simp [height]

theorem height_le_heightOfKeyed {branches : List (String × Branch Caster)}
    {entry : String × Branch Caster} (member : entry ∈ branches) :
    entry.2.caster.height ≤ heightOfKeyed branches := by
  induction branches with
  | nil => cases member
  | cons first rest ih =>
    rw [heightOfKeyed]
    cases List.mem_cons.mp member with
    | inl same => exact same ▸ Nat.le_max_left _ _
    | inr later => exact Nat.le_trans (ih later) (Nat.le_max_right _ _)

theorem height_le_heightOfConditions {conditions : List (Condition Caster)}
    {condition : Condition Caster} (member : condition ∈ conditions) :
    condition.branch.caster.height ≤ heightOfConditions conditions := by
  induction conditions with
  | nil => cases member
  | cons first rest ih =>
    rw [heightOfConditions]
    cases List.mem_cons.mp member with
    | inl same => exact same ▸ Nat.le_max_left _ _
    | inr later => exact Nat.le_trans (ih later) (Nat.le_max_right _ _)

theorem height_of_branch {dispatcher : Dispatcher Caster} {branch : Branch Caster}
    (member : branch ∈ dispatcher.branches) :
    branch.caster.height < (Caster.polymorph dispatcher).height := by
  cases dispatcher with
  | keyed property branches =>
    obtain ⟨entry, listed, rfl⟩ := List.mem_map.mp member
    have bound := height_le_heightOfKeyed listed
    rw [height]
    omega
  | conditional conditions =>
    obtain ⟨condition, listed, rfl⟩ := List.mem_map.mp member
    have bound := height_le_heightOfConditions listed
    rw [height]
    omega

end Caster

/-- There is a plain union in the type: one whose data the caster leaves as it is. In a polymorph it
is in every member of the union that goes with some branch. -/
inductive PlainUnion : TypeExpr → Caster → Prop where
  | union (members : List TypeExpr) : PlainUnion (.union members) .identity
  | list {item : TypeExpr} {caster : Caster} (inner : PlainUnion item caster) :
    PlainUnion (.list item) (.list caster)
  | optional {type : TypeExpr} {caster : Caster} (inner : PlainUnion type caster) :
    PlainUnion (.optional type) caster
  | branch {members : List TypeExpr} {dispatcher : Dispatcher Caster} {branch : Branch Caster}
    (listed : branch ∈ dispatcher.branches)
    (inner : ∀ member ∈ members, Fits True member branch.caster →
      PlainUnion member branch.caster) :
    PlainUnion (.union members) (.polymorph dispatcher)

theorem Fits.plainUnion_or_of_height {height : Nat} {type : TypeExpr} {caster : Caster}
    (bound : caster.height ≤ height) (fits : Fits True type caster) :
    PlainUnion type caster ∨ Fits False type caster := by
  induction height generalizing type caster with
  | zero =>
    have positive := caster.height_pos
    omega
  | succ height ih =>
    induction fits with
    | any => exact .inr .any
    | scalar type => exact .inr (.scalar type)
    | list _ inner =>
      rw [Caster.height] at bound
      exact (inner (by omega)).imp .list .list
    | union members => exact .inl (.union members)
    | optional _ inner => exact (inner bound).imp .optional .optional
    | enumeration name => exact .inr (.enumeration name)
    | composite name => exact .inr (.composite name)
    | @polymorph members dispatcher =>
      by_cases whole : ∀ branch ∈ dispatcher.branches,
          ∃ member ∈ members, Fits False member branch.caster
      · exact .inr (.of_branches whole)
      · simp only [Classical.not_forall, not_exists, not_and] at whole
        obtain ⟨branch, listed, none⟩ := whole
        refine .inl (.branch listed fun member among fits => ?_)
        have lower := Caster.height_of_branch listed
        exact (ih (by omega) fits).resolve_right (none member among)

/-- What fits has a plain union in it, or fits without plain unions. -/
theorem Fits.plainUnion_or {type : TypeExpr} {caster : Caster} (fits : Fits True type caster) :
    PlainUnion type caster ∨ Fits False type caster :=
  fits.plainUnion_or_of_height (Nat.le_refl _)

end TypedSchema
