/-!
What a registered name or a property is constrained to. Composite types and enumerations are
referred to by name, so a type that is completed later is still the same type.
-/

namespace TypedSchema

inductive Scalar where
  | string
  | integer
  | number
  | boolean
  | timestamp
  | uuid
deriving DecidableEq, Repr

namespace Scalar

/-- The scalar of a `type` keyword. -/
def ofTypeName? : String → Option Scalar
  | "string" => some .string
  | "integer" => some .integer
  | "number" => some .number
  | "boolean" => some .boolean
  | _ => none

/-- The scalar that a `format` keyword makes of a string. -/
def ofFormat? : String → Option Scalar
  | "date-time" => some .timestamp
  | "uuid" => some .uuid
  | _ => none

def text : Scalar → String
  | .string => "string"
  | .integer => "integer"
  | .number => "number"
  | .boolean => "boolean"
  | .timestamp => "date-time"
  | .uuid => "uuid"

end Scalar

inductive TypeExpr where
  | any
  | scalar (type : Scalar)
  | list (item : TypeExpr)
  | union (members : List TypeExpr)
  | optional (inner : TypeExpr)
  | enumeration (name : String)
  | composite (name : String)
deriving Repr

namespace TypeExpr

mutual
/-- Whether two types are the same. -/
def same : TypeExpr → TypeExpr → Bool
  | .any, .any => true
  | .scalar x, .scalar y => x = y
  | .list x, .list y => same x y
  | .union xs, .union ys => sameMembers xs ys
  | .optional x, .optional y => same x y
  | .enumeration x, .enumeration y => x = y
  | .composite x, .composite y => x = y
  | _, _ => false

def sameMembers : List TypeExpr → List TypeExpr → Bool
  | [], [] => true
  | x :: xs, y :: ys => same x y && sameMembers xs ys
  | _, _ => false
end

instance : BEq TypeExpr := ⟨same⟩

/-- Adds null, which an optional type and the type of everything already have. -/
def orNull : TypeExpr → TypeExpr
  | .optional inner => .optional inner
  | .any => .any
  | type => .optional type

def acceptsNull : TypeExpr → Bool
  | .any => true
  | .optional _ => true
  | _ => false

def compositeName? : TypeExpr → Option String
  | .composite name => some name
  | _ => none

mutual
def text : TypeExpr → String
  | .any => "Any"
  | .scalar type => type.text
  | .list item => "List[" ++ text item ++ "]"
  | .union members => "Union[" ++ ", ".intercalate (texts members) ++ "]"
  | .optional inner => "Optional[" ++ text inner ++ "]"
  | .enumeration name => name
  | .composite name => name

def texts : List TypeExpr → List String
  | [] => []
  | type :: rest => text type :: texts rest
end

end TypeExpr

end TypedSchema
