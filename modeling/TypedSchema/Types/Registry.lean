import TypedSchema.Types.Composite
import TypedSchema.Types.Enumeration

/-!
The registry of a compiled document: for each name its type, caster, definition and category, and
the descriptions of the composite types and enumerations that types refer to by name.
-/

namespace TypedSchema

structure Entry where
  name : String
  type : TypeExpr
  caster : Caster
  definition : Definition
  category : Category

structure Registry where
  entries : Fields Entry := []
  composites : Fields Composite := []
  enumerations : Fields Enumeration := []
  root : Option String := none

namespace Registry

def register (registry : Registry) (entry : Entry) : Registry :=
  { registry with entries := Fields.insert registry.entries entry.name entry }

def setComposite (registry : Registry) (composite : Composite) : Registry :=
  { registry with composites := Fields.insert registry.composites composite.name composite }

def setEnumeration (registry : Registry) (enumeration : Enumeration) : Registry :=
  { registry with
    enumerations := Fields.insert registry.enumerations enumeration.name enumeration }

def contains (registry : Registry) (name : String) : Bool :=
  Fields.has registry.entries name

/-- What is found under a name, or that nothing is. -/
def found {α : Type} (fields : Fields α) (name : String) : Except Error α :=
  match Fields.get? fields name with
  | some value => .ok value
  | none => .error (.classNotFound name)

def entry (registry : Registry) (name : String) : Except Error Entry :=
  found registry.entries name

def composite (registry : Registry) (name : String) : Except Error Composite :=
  found registry.composites name

def enumeration (registry : Registry) (name : String) : Except Error Enumeration :=
  found registry.enumerations name

/-- The composite type of a name; an alias of a composite type leads to its target. -/
def compositeNamed (registry : Registry) (name : String) : Except Error Composite :=
  match (Fields.get? registry.entries name).map Entry.type with
  | some (.composite target) => registry.composite target
  | _ => registry.composite name

/-! ## Inheritance -/

def parentsOf (registry : Registry) (name : String) : List String :=
  match Fields.get? registry.composites name with
  | some composite => composite.parents
  | none => []

/-- Searches upwards from the pending names for an ancestor; no name is expanded twice. -/
def reaches (registry : Registry) (ancestor : String) :
    Nat → List String → List String → Bool
  | 0, _, _ => false
  | _ + 1, [], _ => false
  | steps + 1, current :: pending, seen =>
    if current = ancestor then true
    else if seen.contains current then reaches registry ancestor steps pending seen
    else
      reaches registry ancestor steps (registry.parentsOf current ++ pending) (current :: seen)

/-- Every composite type is expanded at most once, so a search takes no more steps than there are
links to parents, and the last one. -/
def searchBound (registry : Registry) : Nat :=
  registry.composites.foldl (fun sofar (_, composite) => sofar + composite.parents.length) 2

/-- Whether a type is the ancestor or inherits from it. -/
def isSubtype (registry : Registry) (child ancestor : String) : Bool :=
  registry.reaches ancestor registry.searchBound [child] []

/-! ## Conformance -/

def conformsScalar : Scalar → Value → Bool
  | .string, .string _ => true
  | .integer, .integer _ => true
  | .number, .number _ => true
  | .boolean, .bool _ => true
  | .timestamp, .timestamp _ => true
  | .uuid, .uuid _ => true
  | _, _ => false

mutual
/-- Whether a value already is of a type. -/
def conforms (registry : Registry) (value : Value) : TypeExpr → Bool
  | .any => true
  | .scalar type => conformsScalar type value
  | .list item =>
    match value with
    | .list items => items.all fun value => conforms registry value item
    | _ => false
  | .union members => conformsAny registry value members
  | .optional inner => value.isNull || conforms registry value inner
  | .enumeration name =>
    match value with
    | .member member => member.enumeration = name
    | _ => false
  | .composite name =>
    match value with
    | .object type _ => registry.isSubtype type name
    | _ => false

def conformsAny (registry : Registry) (value : Value) : List TypeExpr → Bool
  | [] => false
  | type :: rest => conforms registry value type || conformsAny registry value rest
end

end Registry

end TypedSchema
