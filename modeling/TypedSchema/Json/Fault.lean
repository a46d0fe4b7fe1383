import TypedSchema.Json.Printer
import TypedSchema.Text.Quoted

/-!
What can be wrong with a document: its text, or the shape of a value where a certain shape is
expected. A failure says where in the text it was found, when there is a text, and on the way to
which value.
-/

namespace TypedSchema.Json

/-- What a value is, for a message about the wrong kind of value. -/
def kindText : Json → String
  | .null => "null"
  | .bool value => s!"boolean `{value}`"
  | .integer value => s!"integer `{value}`"
  | .float value => s!"floating point `{value.text Binary64.documentStyle}`"
  | .string value => s!"string {Text.quote value}"
  | .array _ => "sequence"
  | .object _ => "map"

inductive Fault where
  | endOfList
  | endOfObject
  | endOfString
  | endOfValue
  | expectedColon
  | expectedListEnd
  | expectedObjectEnd
  | expectedWord
  | expectedValue
  | invalidEscape
  | invalidNumber
  | outOfRange
  | invalidEncoding
  | controlCharacter
  | keyNotString
  | loneSurrogate
  | unfinishedEscape
  | trailingComma
  | trailingCharacters
  | tooDeep
  | wrongKind (found : Json) (expected : String)
  | duplicateField (name : String)
  | missingField (name : String)
  | wrongLength (found : Nat) (expected : String)

def Fault.message : Fault → String
  | .endOfList => "EOF while parsing a list"
  | .endOfObject => "EOF while parsing an object"
  | .endOfString => "EOF while parsing a string"
  | .endOfValue => "EOF while parsing a value"
  | .expectedColon => "expected `:`"
  | .expectedListEnd => "expected `,` or `]`"
  | .expectedObjectEnd => "expected `,` or `\x7d`"
  | .expectedWord => "expected ident"
  | .expectedValue => "expected value"
  | .invalidEscape => "invalid escape"
  | .invalidNumber => "invalid number"
  | .outOfRange => "number out of range"
  | .invalidEncoding => "invalid unicode code point"
  | .controlCharacter =>
    "control character (\\u0000-\\u001F) found while parsing a string"
  | .keyNotString => "key must be a string"
  | .loneSurrogate => "lone leading surrogate in hex escape"
  | .unfinishedEscape => "unexpected end of hex escape"
  | .trailingComma => "trailing comma"
  | .trailingCharacters => "trailing characters"
  | .tooDeep => "recursion limit exceeded"
  | .wrongKind found expected => s!"invalid type: {found.kindText}, expected {expected}"
  | .duplicateField name => s!"duplicate field `{name}`"
  | .missingField name => s!"missing field `{name}`"
  | .wrongLength found expected => s!"invalid length {found}, expected {expected}"

/-- Lines count from one, columns from zero in bytes. -/
structure Position where
  line : Nat
  column : Nat
deriving DecidableEq

/-- A step on the way to a value; the name is unknown while it is being read. -/
inductive Step where
  | member (name : String)
  | item (index : Nat)
  | unnamed
deriving DecidableEq

abbrev Route := List Step

def Step.text : Step → String
  | .member name => name
  | .item index => s!"[{index}]"
  | .unnamed => "?"

/-- The steps with a point before each but the first and the indices. -/
def Route.text (route : Route) : String :=
  match route with
  | [] => "."
  | first :: rest =>
    rest.foldl (fun sofar step =>
      match step with
      | .item _ => sofar ++ step.text
      | _ => sofar ++ "." ++ step.text) first.text

structure Failure where
  fault : Fault
  position : Option Position := none
  route : Option Route := none

/-- The fault and its place in the text. -/
def Failure.message (failure : Failure) : String :=
  match failure.position with
  | some position =>
    s!"{failure.fault.message} at line {position.line} column {position.column}"
  | none => failure.fault.message

/-- A failure met on the way of `route`, unless it already knows its way. -/
def Failure.along (route : Route) (failure : Failure) : Failure :=
  { failure with route := failure.route <|> some route }

end TypedSchema.Json
