import TypedSchema.Error

/-!
Signatures of types: their parameters, and whether further keywords are accepted. Binding gives each
parameter its value, by position, by keyword or by default.
-/

namespace TypedSchema

inductive Default where
  | required
  | value (value : Value)

structure Property where
  /-- The name of the attribute. -/
  name : String
  /-- The key in documents. -/
  external : String
  caster : Caster
  type : TypeExpr
  default : Default

/-- How keys that are not declared are taken. -/
structure CatchAll where
  caster : Caster
  type : TypeExpr

structure Signature where
  owner : String
  params : List Property
  catchAll : Option CatchAll

structure Arguments where
  positional : List Value := []
  keyword : Fields Value := []

/-- A value for every parameter in order, and the keywords that name none. -/
structure Bound where
  declared : Fields Value
  extra : Fields Value

namespace Property

/-- The parameter in a signature; a default of null is written `None`. -/
def text (property : Property) : String :=
  let declared := s!"{property.name}: {property.type.text}"
  match property.default with
  | .required => declared
  | .value .null => declared ++ " = None"
  | .value value => s!"{declared} = {value.text}"

end Property

namespace Signature

def param? (signature : Signature) (name : String) : Option Property :=
  signature.params.find? (·.name = name)

def acceptsExtra (signature : Signature) : Bool :=
  signature.catchAll.isSome

def text (signature : Signature) : String :=
  let extra :=
    match signature.catchAll with
    | some catchAll => [s!"**kwargs: {catchAll.type.text}"]
    | none => []
  s!"{signature.owner}(" ++ ", ".intercalate (signature.params.map Property.text ++ extra) ++ ")"

def refuse (fault : TypeFault) : Error :=
  .type [] [] fault

/-- Sorts keywords into those that name parameters, added to `given`, and extras. -/
def sortKeywords (signature : Signature) :
    List (String × Value) → Fields Value → Fields Value →
      Except Error (Fields Value × Fields Value)
  | [], given, extra => .ok (given, extra)
  | (name, value) :: rest, given, extra =>
    if (signature.param? name).isSome then
      if Fields.has given name then .error (refuse (.repeatedArgument signature.owner name))
      else sortKeywords signature rest (Fields.insert given name value) extra
    else if signature.acceptsExtra then
      sortKeywords signature rest given (Fields.insert extra name value)
    else .error (refuse (.unexpectedArgument signature.owner name))

/-- The values of parameters, given or by default, and the parameters that have none. What is given
counts for one parameter only. -/
def fill : List Property → Fields Value → List (String × Value) × List Property
  | [], _ => ([], [])
  | param :: rest, given =>
    let (filled, missing) := fill rest (Fields.erase given param.name)
    match Fields.get? given param.name, param.default with
    | some value, _ => ((param.name, value) :: filled, missing)
    | none, .value value => ((param.name, value) :: filled, missing)
    | none, .required => (filled, param :: missing)

def bind (signature : Signature) (arguments : Arguments) : Except Error Bound := do
  if signature.params.length < arguments.positional.length then
    throw (refuse (.tooManyPositional signature.owner signature.params.length
      arguments.positional.length))
  let positional := Fields.ofList
    ((signature.params.map Property.name).zip arguments.positional)
  let (given, extra) ← signature.sortKeywords arguments.keyword positional []
  match fill signature.params given with
  | (filled, []) => return { declared := Fields.ofList filled, extra }
  | (_, first :: rest) =>
    throw ((refuse (.missingArguments signature.owner
      ((first :: rest).map Property.name))).atField first.external)

end Signature

end TypedSchema
