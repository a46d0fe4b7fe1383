import TypedSchema.Types.Registry

/-!
Which branch of a polymorphic caster the data of an object takes.
-/

namespace TypedSchema

namespace Decode

/-- Equality with a constant of a schema, in which an integer and a number are compared as
numbers. -/
def sameConstant : Value → Value → Bool
  | .integer x, .number y => (Binary64.ofInt x.toInt).equal y
  | .number x, .integer y => (Binary64.ofInt y.toInt).equal x
  | x, y => x.equal y

/-- The key that the value of a discriminator stands for. -/
def keyOf? : Value → Option String
  | .string key => some key
  | .integer key => some (toString key.toInt)
  | .bool true => some "true"
  | .bool false => some "false"
  | _ => none

end Decode

namespace Condition

variable {κ : Type}

/-- Whether the data has every constant. -/
def holds (condition : Condition κ) (data : Fields Value) : Bool :=
  condition.constants.all fun (field, constant) =>
    match Fields.get? data field with
    | some value => Decode.sameConstant value constant
    | none => false

end Condition

namespace Dispatcher

variable {κ : Type}

def select (dispatcher : Dispatcher κ) (data : Fields Value) : Except Error (Branch κ) :=
  match dispatcher with
  | .keyed property branches =>
    match Fields.get? data property with
    | none => .error (.key [] (.noDiscriminator property))
    | some value =>
      match Decode.keyOf? value with
      | none => .error ((Error.key [] (.notScalar property value)).atField property)
      | some key =>
        match Fields.get? branches key with
        | some branch => .ok branch
        | none => .error ((Error.key [] (.unmapped property key)).atField property)
  | .conditional conditions =>
    match conditions.find? (·.holds data) with
    | some condition => .ok condition.branch
    | none => .error (.value [] .noCondition)

end Dispatcher

end TypedSchema
