import TypedSchema.Decode.Cast
import TypedSchema.Proofs.Fields
import TypedSchema.Proofs.Types.Fits
import TypedSchema.Proofs.Values.Ranks

/-!
How many layers a cast can have. The casters that a composite type declares are no higher than the
highest of the registry, and what is inside a value is of lower rank.
-/

namespace TypedSchema.Decode

variable {registry : Registry}

theorem le_foldl_max {α : Type} (size : α → Nat) (items : List α) (start : Nat) :
    start ≤ items.foldl (fun sofar item => max sofar (size item)) start ∧
      ∀ item ∈ items, size item ≤ items.foldl (fun sofar item => max sofar (size item)) start := by
  induction items generalizing start with
  | nil => exact ⟨Nat.le_refl start, nofun⟩
  | cons first rest ih =>
    obtain ⟨startBound, bounds⟩ := ih (max start (size first))
    rw [List.foldl_cons]
    constructor
    · omega
    · intro item member
      cases List.mem_cons.mp member with
      | inl same =>
        subst same
        omega
      | inr later => exact bounds item later

theorem propertyHeight_le {name : String} {composite : Composite}
    (present : Fields.get? registry.composites name = some composite) :
    propertyHeight composite ≤ casterHeight registry :=
  (le_foldl_max propertyHeight _ 0).2 composite (Fields.value_mem (Fields.mem_of_get? present))

theorem height_of_property {name : String} {composite : Composite}
    (present : Fields.get? registry.composites name = some composite) {property : Property}
    (declared : property ∈ Fields.values composite.properties) :
    property.caster.height ≤ casterHeight registry := by
  refine Nat.le_trans ?_ (propertyHeight_le present)
  exact (le_foldl_max (fun property : Property => property.caster.height) _ _).2 _ declared

theorem height_of_catchAll {name : String} {composite : Composite}
    (present : Fields.get? registry.composites name = some composite) {catchAll : CatchAll}
    (takes : composite.catchAll = some catchAll) :
    catchAll.caster.height ≤ casterHeight registry := by
  refine Nat.le_trans ?_ (propertyHeight_le present)
  have first := (le_foldl_max (fun property : Property => property.caster.height)
    (Fields.values composite.properties)
    ((composite.catchAll.map fun catchAll => catchAll.caster.height).getD 0)).1
  rw [takes] at first
  unfold propertyHeight
  rw [takes]
  exact first

theorem rank_le_of_entry {entries : List (String × Value)} {entry : String × Value}
    (member : entry ∈ entries) : entry.2.rank ≤ Value.rankOfEntries entries :=
  Value.rankOfEntries_le_iff.mp (Nat.le_refl _) entry member

theorem rank_le_of_item {items : List Value} {item : Value} (member : item ∈ items) :
    item.rank ≤ Value.rankOfItems items :=
  Value.rankOfItems_le_iff.mp (Nat.le_refl _) item member

/-! ## Enough layers -/

/-- So many layers are enough for a cast: below the caster there is room for the highest casters of
the registry at every rank of the value. -/
def Suffices (registry : Registry) (layers : Nat) (caster : Caster) (value : Value) : Prop :=
  caster.height + value.rank * (casterHeight registry + 1) ≤ layers

theorem Suffices.of_layers (registry : Registry) (caster : Caster) (value : Value) :
    Suffices registry (layers registry caster value) caster value :=
  Nat.le_succ _

theorem castFor_succ (registry : Registry) (caster : Caster) (value : Value) :
    ∃ fuel, castFor registry caster value = castLayer registry (castWith registry fuel) ∧
      Suffices registry (fuel + 1) caster value :=
  ⟨_, rfl, .of_layers registry caster value⟩

section

variable {layers : Nat}

theorem Suffices.mono {caster : Caster} {value : Value} {more : Nat}
    (enough : Suffices registry layers caster value) (bound : layers ≤ more) :
    Suffices registry more caster value :=
  Nat.le_trans enough bound

theorem Suffices.succ {caster : Caster} {value : Value}
    (enough : Suffices registry layers caster value) :
    Suffices registry (layers + 1) caster value :=
  Nat.le_succ_of_le enough

theorem Suffices.item {item : Caster} {items : List Value}
    (outer : Suffices registry (layers + 1) (.list item) (.list items)) {value : Value}
    (member : value ∈ items) : Suffices registry layers item value := by
  have lower := Nat.mul_le_mul_right (casterHeight registry + 1) (rank_le_of_item member)
  unfold Suffices at outer ⊢
  rw [Caster.height, Value.rank, Nat.add_mul] at outer
  omega

theorem Suffices.branch {dispatcher : Dispatcher Caster} {value : Value}
    (outer : Suffices registry (layers + 1) (.polymorph dispatcher) value)
    {branch : Branch Caster} (listed : branch ∈ dispatcher.branches) :
    Suffices registry layers branch.caster value := by
  have lower := Caster.height_of_branch listed
  unfold Suffices at outer ⊢
  omega

/-- Inside an object there is room for any caster that a composite type declares. -/
theorem Suffices.inside {name : String} {value inner : Value}
    (outer : Suffices registry (layers + 1) (.composite name) value)
    (lower : inner.rank < value.rank) {caster : Caster}
    (height : caster.height ≤ casterHeight registry) : Suffices registry layers caster inner := by
  have room := Nat.mul_le_mul_right (casterHeight registry + 1) (Nat.succ_le_of_lt lower)
  have alone : (Caster.composite name).height = 1 := rfl
  unfold Suffices at outer ⊢
  rw [Nat.succ_mul] at room
  omega

end

end TypedSchema.Decode
