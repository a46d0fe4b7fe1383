/-!
Special names: those that case conversion must leave alone. The names are kept in ascending order
of their code points, each once.
-/

namespace TypedSchema

abbrev SpecialNames := List String

namespace SpecialNames

def contains (special : SpecialNames) (name : String) : Bool :=
  special.elem name

def insert (name : String) : SpecialNames → SpecialNames
  | [] => [name]
  | first :: rest =>
    if name = first then first :: rest
    else if name < first then name :: first :: rest
    else first :: insert name rest

def union (special additions : SpecialNames) : SpecialNames :=
  additions.foldl (fun sofar name => insert name sofar) special

def ofList (names : List String) : SpecialNames :=
  union [] names

end SpecialNames

end TypedSchema
