import TypedSchema.Naming.Conversion
import TypedSchema.Text.Quoted
import TypedSchema.Types.Signature

/-!
Composite types: a table of properties, a way for keys that are not declared, the initializer made
of both, and the special names at the boundary of its data.
-/

namespace TypedSchema

inductive Lineage where
  | custom
  /-- Inherits everything from its parent. -/
  | passthrough (parent : String)
  /-- Put together from parents, which are initialized in order. -/
  | combined (parents : List String)

def Lineage.text : Lineage → String
  | .custom => "custom"
  | .passthrough _ => "passthrough"
  | .combined _ => "multi-inheritance"

inductive Initializer where
  | direct (signature : Signature)
  /-- Binds once, and hands each parent the arguments that it declares. -/
  | combined (signature : Signature) (parents : List String)

namespace Initializer

/-- What callers bind against. -/
def signature : Initializer → Signature
  | .direct signature => signature
  | .combined signature _ => signature

/-- The same under another owner. -/
def renamed (owner : String) : Initializer → Initializer
  | .direct signature => .direct { signature with owner }
  | .combined signature parents => .combined { signature with owner } parents

end Initializer

structure Composite where
  name : String
  lineage : Lineage
  description : Option String
  properties : Fields Property
  catchAll : Option CatchAll
  initializer : Initializer
  special : SpecialNames

namespace Composite

/-- A type without properties. -/
def empty (name : String) (lineage : Lineage) (description : Option String) : Composite where
  name := name
  lineage := lineage
  description := description
  properties := []
  catchAll := none
  initializer := .direct ⟨name, [], none⟩
  special := []

/-- The signature that the properties make. -/
def ownSignature (composite : Composite) : Signature :=
  ⟨composite.name, Fields.values composite.properties, composite.catchAll⟩

def refreshed (composite : Composite) : Composite :=
  { composite with initializer := .direct composite.ownSignature }

/-- Declares a property, again if there is one of its name. -/
def addProperty (composite : Composite) (property : Property) : Composite :=
  { composite with
    properties := Fields.insert composite.properties property.name property }.refreshed

def setCatchAll (composite : Composite) (catchAll : Option CatchAll) : Composite :=
  { composite with catchAll }.refreshed

def parents (composite : Composite) : List String :=
  match composite.lineage with
  | .custom => []
  | .passthrough parent => [parent]
  | .combined parents => parents

def property? (composite : Composite) (name : String) : Option Property :=
  Fields.get? composite.properties name

def signature (composite : Composite) : Signature :=
  composite.initializer.signature

/-- The full form, which leaves the properties out. -/
def full (composite : Composite) : String :=
  "Class(" ++ Text.quote composite.name ++ ")"

/-- The attribute of a key: that of the property declared with the key, or the converted key. -/
def internalName (composite : Composite) (key : String) (special : SpecialNames) :
    String × SpecialNames :=
  match (Fields.values composite.properties).find? (·.external = key) with
  | some property => (property.name, special)
  | none => Naming.pascalToSnake key special

/-- The key of an attribute: that of its property, or the converted name. -/
def externalName (composite : Composite) (internal : String) (special : SpecialNames) : String :=
  match composite.property? internal with
  | some property => property.external
  | none => Naming.snakeToPascal internal special

end Composite

end TypedSchema
