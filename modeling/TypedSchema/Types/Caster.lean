import TypedSchema.Types.TypeExpr
import TypedSchema.Value.Basic

/-!
How a raw value becomes a typed one. A polymorphic caster picks a branch by the data: a keyed one by
the value of one field, a conditional one by the first condition whose constants the data has.
-/

namespace TypedSchema

/-- A choice of a polymorphic caster: the name it goes by, and how the data is cast then. -/
structure Branch (κ : Type) where
  target : String
  caster : κ

/-- Every field listed must hold its constant. -/
structure Condition (κ : Type) where
  constants : Fields Value
  branch : Branch κ

inductive Dispatcher (κ : Type) where
  | keyed (property : String) (branches : List (String × Branch κ))
  | conditional (conditions : List (Condition κ))

inductive Caster where
  | identity
  | scalar (type : Scalar)
  | list (item : Caster)
  | enumeration (name : String)
  | composite (name : String)
  | polymorph (dispatcher : Dispatcher Caster)

namespace Dispatcher

variable {κ : Type}

/-- The branches in the order of their declaration. -/
def branches : Dispatcher κ → List (Branch κ)
  | .keyed _ branches => branches.map Prod.snd
  | .conditional conditions => conditions.map Condition.branch

def targets (dispatcher : Dispatcher κ) : List String :=
  dispatcher.branches.map Branch.target

end Dispatcher

namespace Caster

def text : Caster → String
  | .identity => "Any"
  | .scalar type => type.text
  | .list item => "List[" ++ text item ++ "]"
  | .enumeration name => name
  | .composite name => name
  | .polymorph dispatcher => "Union[" ++ ", ".intercalate dispatcher.targets ++ "]"

mutual
/-- How many casters are nested in one another. -/
def height : Caster → Nat
  | .list item => height item + 1
  | .polymorph (.keyed _ branches) => heightOfKeyed branches + 1
  | .polymorph (.conditional conditions) => heightOfConditions conditions + 1
  | _ => 1

def heightOfKeyed : List (String × Branch Caster) → Nat
  | [] => 0
  | (_, ⟨_, caster⟩) :: rest => max (height caster) (heightOfKeyed rest)

def heightOfConditions : List (Condition Caster) → Nat
  | [] => 0
  | ⟨_, ⟨_, caster⟩⟩ :: rest => max (height caster) (heightOfConditions rest)
end

end Caster

end TypedSchema
