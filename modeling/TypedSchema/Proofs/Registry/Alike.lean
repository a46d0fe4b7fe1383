import TypedSchema.Proofs.Registry.Reach
import TypedSchema.Proofs.Types.Equality

/-!
A test of whether parents agree. Casters with branches are never found to be alike, so the test may
turn down parents that do agree, but what passes it agrees.
-/

namespace TypedSchema

/-- Whether two casters are the same and have no branches. -/
def Caster.alike : Caster → Caster → Bool
  | .identity, .identity => true
  | .scalar type, .scalar other => type = other
  | .list item, .list other => alike item other
  | .enumeration name, .enumeration other => name = other
  | .composite name, .composite other => name = other
  | _, _ => false

theorem Caster.eq_of_alike {caster other : Caster} (same : caster.alike other = true) :
    caster = other := by
  induction caster, other using Caster.alike.induct with
  | case1 => rfl
  | case2 type other => exact congrArg Caster.scalar (of_decide_eq_true same)
  | case3 item other ih => exact congrArg Caster.list (ih same)
  | case4 name other => exact congrArg Caster.enumeration (of_decide_eq_true same)
  | case5 name other => exact congrArg Caster.composite (of_decide_eq_true same)
  | case6 caster other => simp_all [Caster.alike]

namespace Composite

/-- Whether all properties of one type that another one declares as well are declared alike. -/
def sharesProperties (left right : Composite) : Bool :=
  left.properties.all fun (name, property) =>
    match Fields.get? right.properties name with
    | some other => property.type.same other.type && property.caster.alike other.caster
    | none => true

/-- Whether further keys are taken alike, where both types take any. -/
def sharesCatchAll (left right : Composite) : Bool :=
  match left.catchAll, right.catchAll with
  | some way, some other => way.type.same other.type && way.caster.alike other.caster
  | _, _ => true

variable {left right : Composite}

theorem sharesProperties_sound (shares : left.sharesProperties right = true) {name : String}
    {property other : Property} (declared : Fields.get? left.properties name = some property)
    (also : Fields.get? right.properties name = some other) :
    property.type = other.type ∧ property.caster = other.caster := by
  have both := List.all_eq_true.mp shares _ (Fields.mem_of_get? declared)
  simp only [also, Bool.and_eq_true] at both
  exact ⟨TypeExpr.eq_of_same _ _ both.1, Caster.eq_of_alike both.2⟩

theorem sharesCatchAll_sound (shares : left.sharesCatchAll right = true) {way other : CatchAll}
    (takes : left.catchAll = some way) (also : right.catchAll = some other) : way = other := by
  unfold sharesCatchAll at shares
  simp only [takes, also, Bool.and_eq_true] at shares
  have type := TypeExpr.eq_of_same _ _ shares.1
  have caster := Caster.eq_of_alike shares.2
  cases way
  cases other
  cases type
  cases caster
  rfl

end Composite

namespace Registry

variable {registry : Registry}

/-- Whether parents are found to agree. -/
def parentsShare (registry : Registry) (parents : List String) : Bool :=
  parents.all fun first => parents.all fun second =>
    match Fields.get? registry.composites first, Fields.get? registry.composites second with
    | some left, some right => left.sharesProperties right && left.sharesCatchAll right
    | _, _ => true

theorem parentsShare_sound {parents : List String} (shares : registry.parentsShare parents = true) :
    registry.ParentsAgree parents := by
  have each : ∀ first ∈ parents, ∀ second ∈ parents, ∀ left right,
      Fields.get? registry.composites first = some left →
      Fields.get? registry.composites second = some right →
        left.sharesProperties right = true ∧ left.sharesCatchAll right = true := by
    intro first firstMember second secondMember left right leftPresent rightPresent
    have pair := List.all_eq_true.mp (List.all_eq_true.mp shares first firstMember) second
      secondMember
    simpa only [leftPresent, rightPresent, Bool.and_eq_true] using pair
  constructor
  case properties =>
    intro first firstMember second secondMember left right leftPresent rightPresent name property
      other declared also
    have both := each first firstMember second secondMember left right leftPresent rightPresent
    exact Composite.sharesProperties_sound both.1 declared also
  case catchAll =>
    intro first firstMember second secondMember left right leftPresent rightPresent way other takes
      also
    have both := each first firstMember second secondMember left right leftPresent rightPresent
    exact Composite.sharesCatchAll_sound both.2 takes also

/-- Whether all parents in the registry are found to agree. -/
def allShare (registry : Registry) : Bool :=
  (Fields.values registry.composites).all fun composite =>
    match composite.lineage with
    | .combined parents => registry.parentsShare parents
    | _ => true

theorem allShare_sound (shares : registry.allShare = true) (name : String) :
    registry.AncestorsAgree name := by
  intro ancestor composite parents _ present lineage
  have own := List.all_eq_true.mp shares composite (Fields.value_mem (Fields.mem_of_get? present))
  simp only [lineage] at own
  exact parentsShare_sound own

end Registry

end TypedSchema
