import TypedSchema.Types.TypeExpr

/-!
The equality test of types is equality.
-/

namespace TypedSchema.TypeExpr

mutual
theorem eq_of_same : (type other : TypeExpr) → same type other = true → type = other
  | .any, other, equal => by
    cases other with
    | any => rfl
    | _ => cases equal
  | .scalar _, other, equal => by
    cases other with
    | scalar => exact congrArg TypeExpr.scalar (of_decide_eq_true equal)
    | _ => cases equal
  | .list item, other, equal => by
    cases other with
    | list inner => rw [eq_of_same item inner equal]
    | _ => cases equal
  | .union members, other, equal => by
    cases other with
    | union others => rw [eq_of_sameMembers members others equal]
    | _ => cases equal
  | .optional inner, other, equal => by
    cases other with
    | optional inside => rw [eq_of_same inner inside equal]
    | _ => cases equal
  | .enumeration name, other, equal => by
    cases other with
    | enumeration => exact congrArg TypeExpr.enumeration (of_decide_eq_true equal)
    | _ => cases equal
  | .composite name, other, equal => by
    cases other with
    | composite => exact congrArg TypeExpr.composite (of_decide_eq_true equal)
    | _ => cases equal

theorem eq_of_sameMembers : (members others : List TypeExpr) →
    sameMembers members others = true → members = others
  | [], [], _ => rfl
  | [], _ :: _, equal => by cases equal
  | _ :: _, [], equal => by cases equal
  | type :: rest, other :: others, equal => by
    obtain ⟨first, later⟩ := Bool.and_eq_true_iff.mp equal
    rw [eq_of_same type other first, eq_of_sameMembers rest others later]
end

mutual
theorem same_refl : (type : TypeExpr) → same type type = true
  | .any => rfl
  | .scalar _ => decide_eq_true rfl
  | .list item => same_refl item
  | .union members => sameMembers_refl members
  | .optional inner => same_refl inner
  | .enumeration _ => decide_eq_true rfl
  | .composite _ => decide_eq_true rfl

theorem sameMembers_refl : (members : List TypeExpr) → sameMembers members members = true
  | [] => rfl
  | type :: rest => Bool.and_eq_true_iff.mpr ⟨same_refl type, sameMembers_refl rest⟩
end

instance : LawfulBEq TypeExpr where
  eq_of_beq := fun equal => eq_of_same _ _ equal
  rfl := fun {type} => same_refl type

end TypedSchema.TypeExpr
