import TypedSchema.Json.Fault

/-!
Reading documents from the bytes of a text. A cursor keeps the bytes that are left and the position
of the next one. A fault is reported either where the cursor stands or behind the byte it looks at,
and on the way to the value that is being read: a list item is under its index and a member under
its name, a fault in a name is under an unnamed step, and any other fault belongs to the list or
object itself.
-/

namespace TypedSchema.Json

structure Cursor where
  rest : List UInt8
  line : Nat := 1
  column : Nat := 0
  /-- The bytes come one at a time, so the position counts the byte that is looked at. -/
  streamed : Bool := false

namespace Cursor

def ofString (text : String) : Cursor :=
  { rest := text.toUTF8.toList }

def position (cursor : Cursor) : Position :=
  ⟨cursor.line, cursor.column⟩

/-- Past the next byte. -/
def advance (cursor : Cursor) : Cursor :=
  match cursor.rest with
  | [] => cursor
  | 10 :: rest => { cursor with rest, line := cursor.line + 1, column := 0 }
  | _ :: rest => { cursor with rest, column := cursor.column + 1 }

end Cursor

abbrev Reader := StateT Cursor (Except Failure)

namespace Reader

variable {α : Type}

/-- A fault where the cursor stands. -/
def fail (fault : Fault) : Reader α := do
  throw { fault, position := some (← get).position }

/-- A fault at the byte the cursor looks at. -/
def failNext (fault : Fault) : Reader α := do
  throw { fault, position := some (← get).advance.position }

/-- Failures of `reader` that do not know their way yet are met on `route`. -/
def along (route : Route) (reader : Reader α) : Reader α :=
  fun cursor => (reader cursor).mapError (Failure.along route)

def peek : Reader (Option UInt8) :=
  return (← get).rest.head?

def advance : Reader Unit :=
  modify Cursor.advance

def next : Reader (Option UInt8) := do
  let byte ← peek
  advance
  return byte

/-- A bound for any loop in which a step takes at least one byte. -/
def bound : Reader Nat :=
  return (← get).rest.length + 1

def isBlank (byte : UInt8) : Bool :=
  byte = 32 || byte = 10 || byte = 9 || byte = 13

def isDigit (byte : UInt8) : Bool :=
  48 ≤ byte && byte ≤ 57

/-- Past the bytes that satisfy a condition, which are returned. -/
def spanWhile (condition : UInt8 → Bool) : Nat → Reader (List UInt8)
  | 0 => return []
  | steps + 1 => do
    match ← peek with
    | some byte =>
      if condition byte then
        advance
        return byte :: (← spanWhile condition steps)
      else return []
    | none => return []

/-- The next byte that is not blank. -/
def peekValue : Reader (Option UInt8) := do
  let _ ← spanWhile isBlank (← bound)
  peek

/-! ## Words and numbers -/

/-- The rest of a word. -/
def word : List UInt8 → Reader Unit
  | [] => return ()
  | expected :: rest => do
    match ← next with
    | none => fail .endOfValue
    | some byte => if byte = expected then word rest else fail .expectedWord

def digits : Reader (List UInt8) := do
  spanWhile isDigit (← bound)

/-- The integer part; no digit follows a leading zero. -/
def wholeDigits : Reader (List UInt8) := do
  match ← next with
  | none => fail .endOfValue
  | some first =>
    if first = 48 then
      match ← peek with
      | some byte => if isDigit byte then failNext .invalidNumber else return [first]
      | none => return [first]
    else if isDigit first then return first :: (← digits)
    else fail .invalidNumber

/-- The digits behind the point, if there is one. -/
def fractionDigits : Reader (Option (List UInt8)) := do
  match ← peek with
  | some 46 =>
    advance
    match ← digits with
    | [] =>
      match ← peek with
      | some _ => failNext .invalidNumber
      | none => failNext .endOfValue
    | read => return some read
  | _ => return none

/-- The greatest exponent that is read to its end. -/
def greatestExponent : Nat := 2147483647

/-- The digits of an exponent. A number with a longer one is out of range as soon as that is seen,
unless it is zero or tiny; its digits are then skipped. -/
def exponentDigits (outOfRange : Bool) : Nat → Nat → Reader (Option Nat)
  | 0, sofar => return some sofar
  | steps + 1, sofar => do
    match ← peek with
    | some byte =>
      if isDigit byte then
        advance
        let sofar := 10 * sofar + (byte.toNat - 48)
        if greatestExponent < sofar then
          if outOfRange then fail .outOfRange
          else
            let _ ← digits
            return none
        else exponentDigits outOfRange steps sofar
      else return some sofar
    | none => return some sofar

inductive Exponent where
  | absent
  | power (value : Int)
  /-- So small that the number is zero. -/
  | vanishing

def exponent (isZero : Bool) : Reader Exponent := do
  match ← peek with
  | some mark =>
    if mark = 101 || mark = 69 then
      advance
      let negative := (← peek) = some 45
      if negative || (← peek) = some 43 then advance
      match ← next with
      | none => fail .endOfValue
      | some first =>
        if isDigit first then
          match ← exponentDigits (!isZero && !negative) (← bound) (first.toNat - 48) with
          | some size => return .power (if negative then -(size : Int) else size)
          | none => return .vanishing
        else fail .invalidNumber
    else return .absent
  | none => return .absent

/-- A float, refused when it is too large. -/
def finite (value : Binary64) : Reader Json := do
  if value.isFinite then return .float value
  else if (← get).streamed then failNext .outOfRange
  else fail .outOfRange

/-- One more than the greatest significand. -/
def significandLimit : Nat := 0x10000000000000000

/-- The significand that goes on with digits as long as they fit, and the digits that are left. -/
def takeDigits : Nat → List UInt8 → Nat × List UInt8
  | significand, [] => (significand, [])
  | significand, digit :: rest =>
    let longer := 10 * significand + (digit.toNat - 48)
    if longer < significandLimit then takeDigits longer rest
    else (significand, digit :: rest)

/-- A number. Digits of the integer part that do not fit into the significand count as zeros, those
of the fraction are dropped. -/
def number : Reader Json := do
  let negative := (← peek) = some 45
  if negative then advance
  let whole ← wholeDigits
  let fraction ← fractionDigits
  let (leading, skipped) := takeDigits 0 whole
  let (significand, dropped) := takeDigits leading (fraction.getD [])
  let exponent ← exponent (significand = 0)
  let places : Int := skipped.length + dropped.length - (fraction.getD []).length
  match fraction, skipped, exponent with
  | none, [], .absent =>
    let value : Int := if negative then -(significand : Int) else significand
    let isNegativeZero := negative && significand = 0
    if isExact value && !isNegativeZero then return .integer value
    else return .float (.ofRatio negative significand 1)
  | _, _, .absent => finite (.ofParts negative significand places)
  | _, _, .power power => finite (.ofParts negative significand (places + power))
  | _, _, .vanishing => return .float (.zero negative)

/-! ## Strings -/

def hexValue? (byte : UInt8) : Option Nat :=
  if isDigit byte then some (byte.toNat - 48)
  else if 97 ≤ byte && byte ≤ 102 then some (byte.toNat - 87)
  else if 65 ≤ byte && byte ≤ 70 then some (byte.toNat - 55)
  else none

/-- Four hexadecimal digits; fewer than four bytes are the end of the string. -/
def hex : Reader Nat := do
  let taken := ((← get).rest.take 4)
  for _ in taken do advance
  if taken.length < 4 then fail .endOfString
  else
    match taken.mapM hexValue? with
    | some digits => return digits.foldl (16 * · + ·) 0
    | none => fail .invalidEscape

/-- The next byte of a string, without taking it. -/
def peekInString : Reader UInt8 := do
  match ← peek with
  | some byte => return byte
  | none => fail .endOfString

def utf8 (code : Nat) : List UInt8 :=
  (String.singleton (Char.ofNat code)).toUTF8.toList

/-- The bytes of an escaped code point; two surrogates stand for one. -/
def unicodeEscape : Reader (List UInt8) := do
  let first ← hex
  if 0xDC00 ≤ first && first ≤ 0xDFFF then fail .loneSurrogate
  else if first < 0xD800 || 0xDBFF < first then return utf8 first
  else
    for expected in ([92, 117] : List UInt8) do
      let byte ← peekInString
      advance
      if byte ≠ expected then fail .unfinishedEscape
    let second ← hex
    if second < 0xDC00 || 0xDFFF < second then fail .loneSurrogate
    else return utf8 ((first - 0xD800) * 1024 + (second - 0xDC00) + 0x10000)

/-- The bytes that an escape stands for, behind the backslash. -/
def escape : Reader (List UInt8) := do
  match ← next with
  | none => fail .endOfString
  | some 34 => return [34]
  | some 92 => return [92]
  | some 47 => return [47]
  | some 98 => return [8]
  | some 102 => return [12]
  | some 110 => return [10]
  | some 114 => return [13]
  | some 116 => return [9]
  | some 117 => unicodeEscape
  | some _ => fail .invalidEscape

/-- The bytes of a string up to the closing quote, last first. -/
def stringBytes : Nat → List UInt8 → Reader (List UInt8)
  | 0, _ => fail .endOfString
  | steps + 1, sofar => do
    match ← next with
    | none => fail .endOfString
    | some 34 => return sofar
    | some 92 => stringBytes steps ((← escape).reverse ++ sofar)
    | some byte =>
      if byte < 32 then fail .controlCharacter else stringBytes steps (byte :: sofar)

def textOfBytes? (bytes : List UInt8) : Option String :=
  String.fromUTF8? ⟨bytes.toArray⟩

/-- How many bytes at the start make a text, the longest one there is. -/
def textLength (bytes : List UInt8) : Nat :=
  ((List.range bytes.length).reverse.find? fun count =>
    (textOfBytes? (bytes.take count)).isSome).getD 0

/-- A fault so many bytes before the cursor, on the same line. -/
def failBefore (fault : Fault) (count : Nat) : Reader α := do
  let position := (← get).position
  throw { fault, position := some { position with column := position.column - count } }

/-- A string, behind its opening quote. What is no text is reported as far before the end of the
string as there are bytes, with each escape replaced by what it stands for, from the first one on
that has no place in a text. -/
def stringRest : Reader String := do
  let bytes := (← stringBytes (← bound) []).reverse
  match textOfBytes? bytes with
  | some text => return text
  | none => failBefore .invalidEncoding (bytes.length - textLength bytes)

/-! ## Values -/

/-- A value other than a list or an object, which starts with `first`. -/
def scalar (first : UInt8) : Reader Json := do
  if first = 110 then
    advance
    word [117, 108, 108]
    return .null
  else if first = 116 then
    advance
    word [114, 117, 101]
    return .bool true
  else if first = 102 then
    advance
    word [97, 108, 115, 101]
    return .bool false
  else if first = 34 then
    advance
    return .string (← stringRest)
  else if first = 45 || isDigit first then number
  else failNext .expectedValue

/-- Whether one more item follows in a list; `first` before the first one. -/
def moreItems (first : Bool) : Reader Bool := do
  match ← peekValue with
  | none => failNext .endOfList
  | some 93 => return false
  | some byte =>
    if first then return true
    else if byte = 44 then
      advance
      match ← peekValue with
      | some 93 => failNext .trailingComma
      | some _ => return true
      | none => failNext .endOfValue
    else failNext .expectedListEnd

/-- Whether one more member follows in an object. -/
def moreMembers (first : Bool) : Reader Bool := do
  match ← peekValue with
  | none => failNext .endOfObject
  | some 125 => return false
  | some byte =>
    if first then
      if byte = 34 then return true else failNext .keyNotString
    else if byte = 44 then
      advance
      match ← peekValue with
      | some 34 => return true
      | some 125 => failNext .trailingComma
      | some _ => failNext .keyNotString
      | none => failNext .endOfValue
    else failNext .expectedObjectEnd

/-- The name of the next member, if there is one. -/
def memberName (route : Route) (first : Bool) : Reader (Option String) :=
  along (route ++ [.unnamed]) do
    if ← moreMembers first then
      advance
      return some (← stringRest)
    else return none

def colon : Reader Unit := do
  match ← peekValue with
  | some 58 => advance
  | some _ => failNext .expectedColon
  | none => failNext .endOfObject

/-- The items of a list up to the closing bracket. -/
def items (item : Route → Reader Json) (route : Route) : Nat → Nat → Reader (List Json)
  | 0, _ => fail .endOfList
  | steps + 1, index => do
    if ← moreItems (index = 0) then
      let place := route ++ [.item index]
      let value ← along place (item place)
      return value :: (← items item route steps (index + 1))
    else
      advance
      return []

/-- The members of an object up to the closing brace. -/
def members (member : Route → Reader Json) (route : Route) :
    Nat → Bool → Fields Json → Reader (Fields Json)
  | 0, _, _ => fail .endOfObject
  | steps + 1, first, sofar => do
    match ← memberName route first with
    | some name =>
      colon
      let place := route ++ [.member name]
      let value ← along place (member place)
      members member route steps false (Fields.insert sofar name value)
    | none =>
      advance
      return sofar

/-- A value in which lists and objects are nested at most `nesting` deep. -/
def value : Nat → Route → Reader Json
  | nesting, route => do
    match ← peekValue with
    | none => failNext .endOfValue
    | some first =>
      if first = 91 || first = 123 then
        match nesting with
        | 0 => failNext .tooDeep
        | nesting + 1 =>
          advance
          if first = 91 then return .array (← items (value nesting) route (← bound) 0)
          else return .object (← members (value nesting) route (← bound) true [])
      else scalar first

/-- How deep lists and objects may be nested. -/
def nestingLimit : Nat := 127

/-- Nothing but blanks is left. -/
def finish : Reader Unit := do
  if (← peekValue).isSome then failNext .trailingCharacters

end Reader

/-- The document that a text holds, nested at most `nesting` deep. -/
def read (nesting : Nat) (cursor : Cursor) : Except Failure Json := do
  let (value, cursor) ← Reader.value nesting [] cursor
  let _ ← Reader.finish cursor
  return value

/-- The document that a text holds. -/
def ofString (text : String) : Except Failure Json :=
  read Reader.nestingLimit (.ofString text)

/-- The document that bytes hold which come one at a time. -/
def ofStream (bytes : List UInt8) : Except Failure Json :=
  read Reader.nestingLimit { rest := bytes, streamed := true }

end TypedSchema.Json
