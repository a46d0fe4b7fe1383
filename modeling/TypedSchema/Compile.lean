import TypedSchema.Compile.Bind
import TypedSchema.Compile.Inherit

/-!
Compiling a schema document: every definition gets its category, the types are registered category
by category, object types get their properties, and types that inherit are completed.
-/

namespace TypedSchema

namespace Compile

/-- The definitions whose pattern stands for a scalar wherever it occurs. -/
def patternSources : List (String × Scalar) :=
  [("DateTime", .timestamp), ("Uuid", .uuid)]

def patternsOf (document : Document) : Patterns :=
  patternSources.filterMap fun (source, scalar) =>
    ((Fields.get? document.definitions source).bind Definition.pattern?).map (·, scalar)

def classify (document : Document) : Except Error (Fields Classified) :=
  document.definitions.mapM fun (name, definition) => do
    let category ← definition.shape.mapError (Error.named name)
    return (name, ⟨definition, category⟩)

/-- How deep the definitions of a document are nested at most. -/
def nesting (document : Document) : Nat :=
  document.definitions.foldl (fun sofar (_, definition) => max sofar definition.toJson.depth) 0

/-- How deep goals can be nested: a definition is entered once while it is under way, and inside it
every level of nesting takes a goal for the schema and one for the type made of it. -/
def goalNesting (document : Document) : Nat :=
  (document.definitions.length + 1) * (2 * nesting document + 2)

/-- Registers the names of each category in turn. -/
def registerAll (solve : Solver) : Compile Unit :=
  Category.order.forM fun category => do
    ((← get).group category).forM fun name => discard (solve (.named name))

/-- Fills the registry. -/
def fill (document : Document) : Compile Unit := do
  let solve := solve (patternsOf document) (goalNesting document) []
  registerAll solve
  visitCustom (discover solve) (nesting document) 0
  visitCustom (bind solve) (nesting document) 0

end Compile

/-- The registry of the types of a document. -/
def Document.compile (document : Document) : Except Error Registry := do
  let known ← Compile.classify document
  let ((), workspace) ← (Compile.fill document).run { known }
  let registry ← Compile.completeAll
    (workspace.group .passthrough ++ workspace.group .multiInheritance) workspace.registry
  return { registry with root := document.root }

end TypedSchema
