import TypedSchema.Schema.Document
import TypedSchema.Types.Registry

/-!
The state of a compilation: the definitions known so far, each with its category, and the registry
that is being filled. Definitions are those of the document and those that were adopted for schemas
without a name of their own.
-/

namespace TypedSchema.Compile

/-- A definition and the category that it was found to have. -/
structure Classified where
  definition : Definition
  category : Category

structure Workspace where
  known : Fields Classified
  registry : Registry := {}

/-- What a schema resolves to. -/
structure Resolved where
  type : TypeExpr
  caster : Caster

/-- What a schema resolves to that accepts everything. -/
def Resolved.anything : Resolved :=
  ⟨.any, .identity⟩

/-- What is to be resolved: a definition by its name, or a schema in its place. The hint names the
type that may have to be made for it. -/
inductive Goal where
  | named (name : String)
  | inline (definition : Definition) (hint : String)

end Compile

/-- Computations on the workspace. -/
abbrev Compile := StateT Compile.Workspace (Except Error)

namespace Compile

abbrev Solver := Goal → Compile Resolved

namespace Workspace

def find (workspace : Workspace) (name : String) : Except Error Classified :=
  Registry.found workspace.known name

/-- Adds a definition, unless there is one of the name. -/
def adopt (workspace : Workspace) (name : String) (added : Classified) : Workspace :=
  if Fields.has workspace.known name then workspace
  else { workspace with known := Fields.insert workspace.known name added }

/-- The names of a category, in the order in which they became known. -/
def group (workspace : Workspace) (category : Category) : List String :=
  Fields.names (workspace.known.filter fun (_, held) => held.category = category)

/-- Registers what a definition resolved to. -/
def enter (workspace : Workspace) (name : String) (held : Classified) (resolved : Resolved) :
    Workspace :=
  { workspace with
    registry := workspace.registry.register
      ⟨name, resolved.type, resolved.caster, held.definition, held.category⟩ }

/-- Registers a composite type that has no properties yet. -/
def enterComposite (workspace : Workspace) (name : String) (held : Classified)
    (lineage : Lineage) : Workspace :=
  let composite := Composite.empty name lineage held.definition.description?
  { workspace with registry := workspace.registry.setComposite composite }.enter name held
    ⟨.composite name, .composite name⟩

def enterEnumeration (workspace : Workspace) (name : String) (held : Classified)
    (enumeration : Enumeration) : Workspace :=
  { workspace with registry := workspace.registry.setEnumeration enumeration }.enter name held
    ⟨.enumeration name, .enumeration name⟩

end Workspace

end TypedSchema.Compile
