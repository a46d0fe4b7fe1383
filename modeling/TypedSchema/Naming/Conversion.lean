import TypedSchema.Naming.Special
import TypedSchema.Text.Case

/-!
Names at the boundary of documents. Keys of documents are in Pascal case, attributes in snake case,
and members of enumerations in upper snake case. A name that conversion could not carry there and
back becomes special, and special names pass unchanged in both directions, as does whatever is no
identifier.
-/

namespace TypedSchema.Naming

open Text

/-- A letter or `_`, then letters, numbers and `_`. -/
def isIdentifierChars : List Char → Bool
  | [] => false
  | first :: rest =>
    (isAlphabetic first || first = '_') && rest.all fun c => isAlphanumeric c || c = '_'

def isIdentifier (name : String) : Bool :=
  isIdentifierChars name.toList

/-- An underscore before each capitalized word: an ASCII capital that has a character before it and
ASCII lower letters behind it. The character before it is not one of an earlier word found so. -/
def breakWords (insideWord : Bool) : List Char → List Char
  | [] => []
  | [last] => [last]
  | c :: next :: rest =>
    if insideWord && c.isLower then c :: breakWords true (next :: rest)
    else if next.isUpper && (rest.head?.map Char.isLower).getD false then
      c :: '_' :: next :: breakWords true rest
    else c :: breakWords false (next :: rest)

/-- An underscore between a lower letter or digit and the capital behind it. -/
def breakCapitals : List Char → List Char
  | [] => []
  | [last] => [last]
  | c :: next :: rest =>
    if (c.isLower || c.isDigit) && next.isUpper then c :: '_' :: next :: breakCapitals rest
    else c :: breakCapitals (next :: rest)

/-- The words of a name, with underscores between them. -/
def words (name : List Char) : List Char :=
  breakCapitals (breakWords false name)

/-- Words put together, each with a capital and then lower letters. -/
def joinFrom (wordStart : Bool) : List Char → List Char
  | [] => []
  | c :: rest =>
    if c = '_' then joinFrom true rest
    else (if wordStart then upperChar c else lowerChar c) ++ joinFrom false rest

def join (words : List Char) : List Char :=
  joinFrom true words

/-- The words of a name that is to be converted, if it is, and the special names after that. With
`carriesBack`, a name that its words do not give back becomes special. -/
def split (carriesBack : Bool) (name : String) (special : SpecialNames) :
    Option (List Char) × SpecialNames :=
  if !isIdentifier name || special.contains name then (none, special)
  else if name.toList.contains '_' then (none, special.insert name)
  else
    let words := words name.toList
    if carriesBack && join words ≠ name.toList then (none, special.insert name)
    else (some words, special)

/-- `SampleMass` becomes `sample_mass`. -/
def pascalToSnake (name : String) (special : SpecialNames) : String × SpecialNames :=
  match split true name special with
  | (some words, special) => (String.ofList (lower words), special)
  | (none, special) => (name, special)

/-- `sample_mass` becomes `SampleMass`. -/
def snakeToPascal (name : String) (special : SpecialNames) : String :=
  if !isIdentifier name || special.contains name then name
  else String.ofList (join name.toList)

/-- `TemperatureRamp` becomes `TEMPERATURE_RAMP`; members need not be carried back. -/
def pascalToUpperSnake (name : String) (special : SpecialNames) : String × SpecialNames :=
  match split false name special with
  | (some words, special) => (String.ofList (upper words), special)
  | (none, special) => (name, special)

end TypedSchema.Naming
