import TypedSchema.Json.Fault
import TypedSchema.Schema.Category
import TypedSchema.Types.Caster
import TypedSchema.Value.Text

/-!
What can go wrong with a schema or with data, by cause. Errors about data carry the path to the node
at fault; the path gains one step at its front for each value that the error leaves. The wording of
all causes is in `Error.message`.
-/

namespace TypedSchema

inductive PathStep where
  | field (name : String)
  | index (index : Nat)
deriving DecidableEq

/-- A place inside a document. -/
abbrev DataPath := List PathStep

def PathStep.text : PathStep → String
  | .field name => s!".{name}"
  | .index place => s!"[{place}]"

def DataPath.text (path : DataPath) : String :=
  "$" ++ String.join (path.map PathStep.text)

/-- A value that a cast refused, and the enumeration it is not in, if that was the reason. -/
structure Mismatch where
  value : Value
  enumeration : Option String := none

/-- Constructs of schemas that have no type. -/
inductive Unsupported where
  | parentType (index : Nat) (type : TypeExpr)
  | parentCategory (index : Nat) (category : Category)
  | memberWithoutId (entry : Json)
  | conditionWithoutProperties (index : Nat)
  | conditionNotConstant (index : Nat) (field : String)
  | noDiscriminator
  | discriminator (failure : Json.Failure)

inductive TypeFault where
  | tooManyPositional (owner : String) (declared given : Nat)
  | repeatedArgument (owner name : String)
  | unexpectedArgument (owner name : String)
  | missingArguments (owner : String) (names : List String)
  | argument (name : String) (type : TypeExpr) (mismatch : Mismatch)
  | item (caster : Caster) (mismatch : Mismatch)
  | value (caster : Caster) (mismatch : Mismatch)
  | branch (target : String) (value : Value)
  | notConvertible (type : String) (value : Value)
  | notDiscriminable (name : String) (value : Value)
  | notPolymorph (name : String)
  | stated (message : String)

inductive KeyFault where
  | noDiscriminator (property : String)
  | notScalar (property : String) (value : Value)
  | unmapped (property key : String)
  | stated (message : String)

inductive ValueFault where
  | noCondition
  | stated (message : String)

inductive EncodeFault where
  | notFinite (value : Binary64)
  | stated (message : String)

inductive DocumentFault where
  | failure (failure : Json.Failure)
  | stated (message : String)

inductive Error where
  | unidentified (name : Option String) (body : Json)
  | unsupported (context : String) (construct : Unsupported)
  | circularReference (name : String)
  | classNotFound (name : String)
  /-- `within` lists the types under construction, outermost first. -/
  | type (path : DataPath) (within : List String) (fault : TypeFault)
  | key (path : DataPath) (fault : KeyFault)
  | value (path : DataPath) (fault : ValueFault)
  | encode (path : DataPath) (fault : EncodeFault)
  | document (fault : DocumentFault)
  | json (failure : Json.Failure)
  /-- A computation was cut off before its end. -/
  | exhausted

/-- The greatest number of characters of a value shown about an argument. -/
def shownValueLimit : Nat := 120

/-- A text cut at the limit. -/
def cut (text : String) : String :=
  if shownValueLimit < text.length then
    String.ofList (text.toList.take shownValueLimit) ++ "..."
  else text

namespace Mismatch

/-- The value and its kind, shown between brackets, and the reason. -/
def describe (mismatch : Mismatch) (shown : String) : String :=
  let reason :=
    match mismatch.enumeration with
    | some name => s!": not a member of {name}"
    | none => ""
  s!"(value: {shown}, type: {mismatch.value.label}){reason}"

end Mismatch

def Unsupported.message : Unsupported → String
  | .parentType index type =>
    s!"allOf member {index} resolves to {type.text}, not an object type"
  | .parentCategory index category => s!"allOf member {index} is a {category.text} definition"
  | .memberWithoutId entry => s!"enum member without Id: {entry.compact}"
  | .conditionWithoutProperties index => s!"condition {index} has no `if.properties`"
  | .conditionNotConstant index field =>
    s!"condition {index} on `{field}` is not a constant"
  | .noDiscriminator => "polymorph without discriminator"
  | .discriminator failure => failure.message

def TypeFault.message : TypeFault → String
  | .tooManyPositional owner declared given =>
    s!"{owner}() takes {declared} positional arguments but {given} were given"
  | .repeatedArgument owner name => s!"{owner}() got multiple values for argument '{name}'"
  | .unexpectedArgument owner name =>
    s!"{owner}() got an unexpected keyword argument '{name}'"
  | .missingArguments owner names =>
    let plural := if names.length = 1 then "" else "s"
    let listed := ", ".intercalate (names.map fun name => "'" ++ name ++ "'")
    s!"{owner}() missing {names.length} required argument{plural}: {listed}"
  | .argument name type mismatch =>
    s!"argument '{name}' must be of type {type.text} " ++
      mismatch.describe (cut mismatch.value.text)
  | .item caster mismatch =>
    s!"item must be of type {caster.text} " ++ mismatch.describe mismatch.value.text
  | .value caster mismatch =>
    let reason :=
      match mismatch.enumeration with
      | some name => s!": not a member of {name}"
      | none => ""
    s!"value {mismatch.value.text} of type {mismatch.value.label} cannot be cast to " ++
      caster.text ++ reason
  | .branch target found => s!"data of type {found.label} cannot be cast to {target}"
  | .notConvertible type found => s!"{type}.from_dict expects an object, got {found.label}"
  | .notDiscriminable name found =>
    s!"{name} expects an object to discriminate, got {found.label}"
  | .notPolymorph name => s!"`{name}` is not a polymorph"
  | .stated message => message

def KeyFault.message : KeyFault → String
  | .noDiscriminator property => s!"discriminator property '{property}' is missing"
  | .notScalar property value =>
    s!"discriminator value {value.text} of '{property}' is not a scalar"
  | .unmapped property key =>
    s!"no mapping for discriminator value '{key}' of '{property}'"
  | .stated message => message

def ValueFault.message : ValueFault → String
  | .noCondition => "data does not match any conditions"
  | .stated message => message

def EncodeFault.message : EncodeFault → String
  | .notFinite value =>
    s!"number {value.text Binary64.plainStyle} is not representable in JSON"
  | .stated message => message

def DocumentFault.message : DocumentFault → String
  | .failure found => s!"at JSON path {(found.route.getD []).text} → {found.message}"
  | .stated message => message

namespace Error

def message : Error → String
  | .unidentified name body =>
    let shown := name.getD "<anonymous>"
    s!"definition {shown} could not be identified: {body.compact}"
  | .unsupported context construct =>
    s!"unsupported schema construct in `{context}`: {construct.message}"
  | .circularReference name => s!"circular reference while resolving `{name}`"
  | .classNotFound name => s!"class not found: `{name}`"
  | .type path within fault =>
    let chain :=
      if within.isEmpty then ""
      else " (while constructing " ++ " > ".intercalate within ++ ")"
    s!"TypeError at {path.text}{chain}: {fault.message}"
  | .key path fault => s!"KeyError at {path.text}: {fault.message}"
  | .value path fault => s!"ValueError at {path.text}: {fault.message}"
  | .encode path fault => s!"serialization error at {path.text}: {fault.message}"
  | .document fault => s!"malformed schema document {fault.message}"
  | .json failure => failure.message
  | .exhausted => "the computation was cut off"

/-- The path of an error about data. -/
def path? : Error → Option DataPath
  | .type path _ _ => some path
  | .key path _ => some path
  | .value path _ => some path
  | .encode path _ => some path
  | _ => none

/-- The same error, seen from one step further out. -/
def under (step : PathStep) : Error → Error
  | .type path within fault => .type (step :: path) within fault
  | .key path fault => .key (step :: path) fault
  | .value path fault => .value (step :: path) fault
  | .encode path fault => .encode (step :: path) fault
  | error => error

def atField (name : String) (error : Error) : Error :=
  error.under (.field name)

def atIndex (index : Nat) (error : Error) : Error :=
  error.under (.index index)

/-- The error arose while a type was being constructed. -/
def withinType (type : String) : Error → Error
  | .type path within fault =>
    if within.head? = some type then .type path within fault
    else .type path (type :: within) fault
  | error => error

/-- Names the definition that could not be identified, unless it has a name. -/
def named (name : String) : Error → Error
  | .unidentified none body => .unidentified (some name) body
  | error => error

end Error

end TypedSchema
