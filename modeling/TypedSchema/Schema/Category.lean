/-!
The categories of definitions. Types are registered category by category in a fixed order.
-/

namespace TypedSchema

inductive Category where
  | native
  | enumeration
  | custom
  | passthrough
  | multiInheritance
  | list
  | union
  | polymorph
deriving DecidableEq, Repr

namespace Category

/-- The order of registration. -/
def order : List Category :=
  [.native, .enumeration, .custom, .passthrough, .multiInheritance, .list, .union, .polymorph]

def text : Category → String
  | .native => "native"
  | .enumeration => "enum"
  | .custom => "custom"
  | .passthrough => "passthrough"
  | .multiInheritance => "multi-inheritance"
  | .list => "list"
  | .union => "union"
  | .polymorph => "polymorph"

end Category

end TypedSchema
