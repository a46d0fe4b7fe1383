import TypedSchema.Text.Case
import TypedSchema.Time.Layout
import TypedSchema.Types.Registry

/-!
Casts to scalars. Strings are read without the white space around them; a cast never loses anything
that the scalar could hold.
-/

namespace TypedSchema.Decode

/-- An integer of 64 bits in decimal digits, with an optional sign. -/
def integerOfText? (text : List Char) : Option Int64 :=
  let (negative, digits) := Binary64.splitSign text
  if digits.isEmpty || !digits.all Char.isDigit then none
  else
    let size : Int := Binary64.digitsValue digits
    let value := if negative then -size else size
    if Value.isInteger value then some (Int64.ofInt value) else none

/-- The integer that a number is, if it fits. -/
def integerOfNumber? (number : Binary64) : Option Int64 :=
  match number.toInt? with
  | some value =>
    if Value.isInteger value then some (Int64.ofInt value) else none
  | none => none

/-- `true` or `false` in any case. -/
def boolOfText? (text : List Char) : Option Bool :=
  match String.ofList (text.map Char.toLower) with
  | "true" => some true
  | "false" => some false
  | _ => none

def toString? : Value → Option String
  | .string value => some value
  | .integer value => some (toString value.toInt)
  | .number value => some (value.text Binary64.plainStyle)
  | .bool true => some "true"
  | .bool false => some "false"
  | .timestamp value => some value.text
  | .uuid value => some value.text
  | _ => none

def toInteger? : Value → Option Int64
  | .integer value => some value
  | .number value => integerOfNumber? value
  | .string text => integerOfText? (Text.trim text.toList)
  | .bool true => some 1
  | .bool false => some 0
  | _ => none

def toNumber? : Value → Option Binary64
  | .number value => some value
  | .integer value => some (.ofInt value.toInt)
  | .string text => Binary64.ofText? (String.ofList (Text.trim text.toList))
  | .bool true => some (.ofInt 1)
  | .bool false => some (.ofInt 0)
  | _ => none

def toBool? : Value → Option Bool
  | .bool value => some value
  | .string text => boolOfText? (Text.trim text.toList)
  | .integer value => if value = 0 then some false else if value = 1 then some true else none
  | _ => none

def toTimestamp? : Value → Option Time.Timestamp
  | .timestamp value => some value
  | .string text => Time.Timestamp.ofText? text
  | _ => none

def toUuid? : Value → Option Uuid
  | .uuid value => some value
  | .string text => Uuid.ofText? (Text.trim text.toList)
  | _ => none

def castScalar (type : Scalar) (value : Value) : Option Value :=
  match type with
  | .string => (toString? value).map .string
  | .integer => (toInteger? value).map .integer
  | .number => (toNumber? value).map .number
  | .boolean => (toBool? value).map .bool
  | .timestamp => (toTimestamp? value).map .timestamp
  | .uuid => (toUuid? value).map .uuid

end TypedSchema.Decode
