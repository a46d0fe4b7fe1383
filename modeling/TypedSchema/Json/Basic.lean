import TypedSchema.Fields
import TypedSchema.Binary64.Text

/-!
Documents. Objects keep their members in order, each name once. The reader keeps integers within
bounds exact and makes floats of all other numbers, `-0` among them.
-/

namespace TypedSchema

inductive Json where
  | null
  | bool (value : Bool)
  | integer (value : Int)
  | float (value : Binary64)
  | string (value : String)
  | array (items : List Json)
  | object (members : List (String × Json))
deriving Inhabited

namespace Json

mutual
/-- Whether two documents are the same, member for member. -/
def same : Json → Json → Bool
  | .null, .null => true
  | .bool x, .bool y => x = y
  | .integer x, .integer y => x = y
  | .float x, .float y => x = y
  | .string x, .string y => x = y
  | .array xs, .array ys => sameItems xs ys
  | .object xs, .object ys => sameMembers xs ys
  | _, _ => false

def sameItems : List Json → List Json → Bool
  | [], [] => true
  | x :: xs, y :: ys => same x y && sameItems xs ys
  | _, _ => false

def sameMembers : List (String × Json) → List (String × Json) → Bool
  | [], [] => true
  | (name, x) :: xs, (other, y) :: ys => name = other && same x y && sameMembers xs ys
  | _, _ => false
end

instance : BEq Json := ⟨same⟩

/-- Whether an integer is kept exact. -/
def isExact (value : Int) : Bool :=
  -0x8000000000000000 ≤ value && value < 0x10000000000000000

def string? : Json → Option String
  | .string value => some value
  | _ => none

def array? : Json → Option (List Json)
  | .array items => some items
  | _ => none

def object? : Json → Option (Fields Json)
  | .object members => some members
  | _ => none

/-- The member of an object. -/
def member? (json : Json) (name : String) : Option Json :=
  json.object?.bind (Fields.get? · name)

/-- The strings of a list. -/
def strings (items : List Json) : List String :=
  items.filterMap string?

mutual
/-- How many values a document holds, itself included. -/
def nodes : Json → Nat
  | .array items => nodesOfItems items + 1
  | .object members => nodesOfMembers members + 1
  | _ => 1

def nodesOfItems : List Json → Nat
  | [] => 0
  | item :: rest => nodes item + nodesOfItems rest

def nodesOfMembers : List (String × Json) → Nat
  | [] => 0
  | (_, value) :: rest => nodes value + nodesOfMembers rest
end

mutual
/-- How deep a document is nested. -/
def depth : Json → Nat
  | .array items => depthOfItems items + 1
  | .object members => depthOfMembers members + 1
  | _ => 1

def depthOfItems : List Json → Nat
  | [] => 0
  | item :: rest => max (depth item) (depthOfItems rest)

def depthOfMembers : List (String × Json) → Nat
  | [] => 0
  | (_, value) :: rest => max (depth value) (depthOfMembers rest)
end

end Json

end TypedSchema
