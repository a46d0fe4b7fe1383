import TypedSchema.Json.Basic
import TypedSchema.Time.Timestamp
import TypedSchema.Uuid

/-!
Values in memory. Plain data is lifted from a document; casting then puts timestamps, identifiers,
members of enumerations and objects of composite types in its place. An object knows the name of its
type and its attributes in the order of their assignment.
-/

namespace TypedSchema

/-- A member of an enumeration. A plain literal is kept to be written back. -/
structure Member where
  enumeration : String
  name : String
  id : String
  description : Option String
  literal : Option Json
deriving BEq

inductive Value where
  | null
  | bool (value : Bool)
  | integer (value : Int64)
  | number (value : Binary64)
  | string (value : String)
  | timestamp (value : Time.Timestamp)
  | uuid (value : Uuid)
  | list (items : List Value)
  | map (entries : List (String × Value))
  | object (type : String) (attributes : List (String × Value))
  | member (value : Member)

namespace Value

instance : Inhabited Value := ⟨.null⟩

def isNull : Value → Bool
  | .null => true
  | _ => false

/-- The number that a number or an integer is. -/
def number? : Value → Option Binary64
  | .number value => some value
  | .integer value => some (.ofInt value.toInt)
  | _ => none

/-- Whether an integer has 64 bits. -/
def isInteger (value : Int) : Bool :=
  -0x8000000000000000 ≤ value && value < 0x8000000000000000

/-- Integers outside 64 bits become numbers. -/
def ofInt (value : Int) : Value :=
  if isInteger value then .integer (Int64.ofInt value) else .number (.ofInt value)

mutual
/-- Plain data. -/
def ofJson : Json → Value
  | .null => .null
  | .bool value => .bool value
  | .integer value => ofInt value
  | .float value => .number value
  | .string value => .string value
  | .array items => .list (ofJsonItems items)
  | .object members => .map (ofJsonMembers members)

def ofJsonItems : List Json → List Value
  | [] => []
  | item :: rest => ofJson item :: ofJsonItems rest

def ofJsonMembers : List (String × Json) → List (String × Value)
  | [] => []
  | (name, value) :: rest => (name, ofJson value) :: ofJsonMembers rest
end

/-- The kind of a value, for messages; an object or member is called by its type. -/
def label : Value → String
  | .null => "null"
  | .bool _ => "boolean"
  | .integer _ => "integer"
  | .number _ => "number"
  | .string _ => "string"
  | .timestamp _ => "date-time"
  | .uuid _ => "uuid"
  | .list _ => "array"
  | .map _ => "object"
  | .object type _ => type
  | .member value => value.enumeration

mutual
/-- Equality of values. Entries and attributes may come in any order; an integer and a number are
never equal, and neither is what is not a number to itself. -/
def equal : Value → Value → Bool
  | .null, .null => true
  | .bool x, .bool y => x = y
  | .integer x, .integer y => x = y
  | .number x, .number y => x.equal y
  | .string x, .string y => x = y
  | .timestamp x, .timestamp y => x = y
  | .uuid x, .uuid y => x = y
  | .list x, .list y => equalItems x y
  | .map x, .map y => x.length = y.length && equalEntries x y
  | .object type x, .object other y => type = other && x.length = y.length && equalEntries x y
  | .member x, .member y => x == y
  | _, _ => false

def equalItems : List Value → List Value → Bool
  | [], [] => true
  | x :: xs, y :: ys => equal x y && equalItems xs ys
  | _, _ => false

/-- Every entry has an equal one of its name among the others. -/
def equalEntries : List (String × Value) → Fields Value → Bool
  | [], _ => true
  | (name, value) :: rest, others =>
    (match Fields.get? others name with
      | some other => equal value other
      | none => false) && equalEntries rest others
end

/-- The depth of the plain form of a member. -/
def memberRank (value : Member) : Nat :=
  match value.literal with
  | some literal => literal.depth
  | none => 2

mutual
/-- How deep the plain form of a value is nested. -/
def rank : Value → Nat
  | .list items => rankOfItems items + 1
  | .map entries => rankOfEntries entries + 1
  | .object _ attributes => rankOfEntries attributes + 1
  | .member value => memberRank value
  | _ => 1

def rankOfItems : List Value → Nat
  | [] => 0
  | item :: rest => max (rank item) (rankOfItems rest)

def rankOfEntries : List (String × Value) → Nat
  | [] => 0
  | (_, value) :: rest => max (rank value) (rankOfEntries rest)
end

end Value

end TypedSchema
