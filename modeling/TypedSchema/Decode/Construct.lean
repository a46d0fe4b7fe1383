import TypedSchema.Encode

/-!
Filling the attributes of an object. Arguments are bound, every value is coerced to the type of its
property, and the results are assigned in order. A cast may decode nested data, so it is given here
as a function, and it may add to the special names whether it succeeds or not.
-/

namespace TypedSchema

/-- Computations on data: they may fail, and the special names they add remain. -/
abbrev Decode := ExceptT Error (StateM NameTable)

/-- Why a cast gave no value: the value itself was refused, or something inside it went wrong. -/
inductive Refusal where
  | mismatch (mismatch : Mismatch)
  | nested (error : Error)

abbrev Attempt := ExceptT Refusal (StateM NameTable)

/-- Filling that was stopped by an error, and the attributes that were assigned before. -/
structure Stopped where
  error : Error
  assigned : Fields Value

abbrev Filling := ExceptT Stopped (StateM NameTable)

abbrev Cast := Caster → Value → Attempt Value

namespace Refusal

/-- The error of a cast, given how a refused value is described. -/
def toError (describe : Mismatch → TypeFault) : Refusal → Error
  | .mismatch refused => .type [] [] (describe refused)
  | .nested error => error

end Refusal

namespace Decode

/-- Leaves null and what already conforms as it is, and casts everything else. -/
def coerce (registry : Registry) (cast : Cast) (name : String) (type : TypeExpr)
    (caster : Caster) (value : Value) : Decode Value :=
  if value.isNull || registry.conforms value type then return value
  else ExceptT.adapt (Refusal.toError (.argument name type)) (cast caster value)

/-- Assigns the declared parameters in order. -/
def assignDeclared (registry : Registry) (cast : Cast) :
    List Property → Fields Value → Fields Value → Filling (Fields Value)
  | [], _, assigned => return assigned
  | param :: rest, declared, assigned =>
    match Fields.get? declared param.name with
    | none => assignDeclared registry cast rest declared assigned
    | some value => do
      let value ← ExceptT.adapt (fun error => ⟨error.atField param.external, assigned⟩)
        (coerce registry cast param.name param.type param.caster value)
      assignDeclared registry cast rest (Fields.erase declared param.name)
        (Fields.insert assigned param.name value)

/-- Assigns keywords that name no parameter. `type` is the type whose special names the keys of the
data were converted with. -/
def assignExtra (registry : Registry) (cast : Cast) (type : String) (catchAll : CatchAll) :
    List (String × Value) → Fields Value → Filling (Fields Value)
  | [], assigned => return assigned
  | (name, value) :: rest, assigned => do
    let result ← (coerce registry cast name catchAll.type catchAll.caster value).run
    match result with
    | .ok value => assignExtra registry cast type catchAll rest (Fields.insert assigned name value)
    | .error error =>
      let key := Naming.snakeToPascal name ((← get).of type)
      throw ⟨error.atField key, assigned⟩

/-- Binds the arguments and assigns what they give. -/
def invoke (registry : Registry) (cast : Cast) (type : String) (signature : Signature)
    (arguments : Arguments) (assigned : Fields Value) : Filling (Fields Value) := do
  match signature.bind arguments with
  | .error error => throw ⟨error, assigned⟩
  | .ok bound =>
    let assigned ← assignDeclared registry cast signature.params bound.declared assigned
    match signature.catchAll with
    | some catchAll => assignExtra registry cast type catchAll bound.extra assigned
    | none => return assigned

/-- What of bound arguments a parent declares or takes as extra. -/
def handOver (parent : Signature) (bound : Bound) : Arguments where
  keyword :=
    let declared := bound.declared.filter fun (name, _) => (parent.param? name).isSome
    if parent.acceptsExtra then Fields.insertAll declared bound.extra else declared

/-- Runs an initializer; one that is combined runs those of its parents in order. -/
def runInitializer (registry : Registry) (cast : Cast) :
    Nat → String → Initializer → Arguments → Fields Value → Filling (Fields Value)
  | _, type, .direct signature, arguments, assigned =>
    invoke registry cast type signature arguments assigned
  | 0, _, .combined _ _, _, assigned => throw ⟨.exhausted, assigned⟩
  | depth + 1, _, .combined signature parents, arguments, assigned => do
    match signature.bind arguments with
    | .error error => throw ⟨error, assigned⟩
    | .ok bound =>
      parents.foldlM (fun assigned parent => do
        match registry.composite parent with
        | .error error => throw ⟨error, assigned⟩
        | .ok composite =>
          runInitializer registry cast depth parent composite.initializer
            (handOver composite.signature bound) assigned) assigned

/-- The number of generations there can be in a registry without circles. -/
def generations (registry : Registry) : Nat :=
  registry.composites.length + 1

/-- An object of a composite type. -/
def construct (registry : Registry) (cast : Cast) (composite : Composite)
    (arguments : Arguments) : Decode Value := do
  let attributes ← ExceptT.adapt (fun stopped => stopped.error.withinType composite.name)
    (runInitializer registry cast (generations registry) composite.name composite.initializer
      arguments [])
  return .object composite.name attributes

/-- The attribute of a key of a type; a key that cannot be converted becomes special. -/
def internalName (composite : Composite) (key : String) : StateM NameTable String := do
  let names ← get
  let (name, special) := composite.internalName key (names.of composite.name)
  set (Fields.insert names composite.name special)
  return name

/-- The entries of a map under the attributes of their keys. -/
def keywords (composite : Composite) :
    List (String × Value) → StateM NameTable (List (String × Value))
  | [] => return []
  | (key, value) :: rest => do
    let name ← internalName composite key
    return (name, value) :: (← keywords composite rest)

/-- An object of a composite type from plain data. -/
def fromEntries (registry : Registry) (cast : Cast) (composite : Composite)
    (entries : Fields Value) : Decode Value := do
  let keyword ← keywords composite entries
  construct registry cast composite { keyword := Fields.ofList keyword }

end Decode

end TypedSchema
