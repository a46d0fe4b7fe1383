import TypedSchema.Json.Reader

/-!
Passing over values that nobody asked for. The text is still checked, but nothing is kept: strings
are not decoded, numbers are not rounded, and nesting is not limited.
-/

namespace TypedSchema.Json.Reader

/-- An escape inside a skipped string, behind the backslash. -/
def skipEscape : Reader Unit := do
  match ← next with
  | none => fail .endOfString
  | some byte =>
    if byte = 117 then
      let _ ← hex
    else if [34, 92, 47, 98, 102, 110, 114, 116].contains byte then return ()
    else fail .invalidEscape

/-- The rest of a string, behind its opening quote. -/
def skipString : Nat → Reader Unit
  | 0 => fail .endOfString
  | steps + 1 => do
    match ← peek with
    | none => fail .endOfString
    | some byte =>
      if byte = 34 then advance
      else if byte = 92 then
        advance
        skipEscape
        skipString steps
      else if byte < 32 then fail .controlCharacter
      else
        advance
        skipString steps

/-- The digits of a number, behind its sign. -/
def skipDigits : Reader Unit := do
  let first := (← next).getD 0
  if first = 48 then
    if ((← peek).map isDigit).getD false then failNext .invalidNumber
  else if isDigit first then
    let _ ← digits
  else fail .invalidNumber

def skipFraction : Reader Unit := do
  if (← peek) = some 46 then
    advance
    if (← digits).isEmpty then failNext .invalidNumber

def skipExponent : Reader Unit := do
  if (← peek) = some 101 || (← peek) = some 69 then
    advance
    if (← peek) = some 43 || (← peek) = some 45 then advance
    if ((← next).map isDigit).getD false then
      let _ ← digits
    else fail .invalidNumber

def skipScalar (first : UInt8) : Reader Unit := do
  if first = 34 then
    advance
    skipString (← bound)
  else if first = 45 || isDigit first then
    if first = 45 then advance
    skipDigits
    skipFraction
    skipExponent
  else
    let _ ← scalar first

inductive Bracket where
  | list
  | object
deriving DecidableEq

/-- The name and the colon in front of a member that is skipped. -/
def skipName : Reader Unit := do
  match ← peekValue with
  | some 34 => advance
  | some _ => failNext .keyNotString
  | none => failNext .endOfObject
  skipString (← bound)
  colon

/-- Skips to the end of the outermost open bracket. `afterValue` tells whether a value has just
ended, so that a comma or the closing bracket comes next. -/
def skipRest : Nat → Bool → List Bracket → Reader Unit
  | 0, _, _ => fail .endOfValue
  | _, true, [] => return ()
  | steps + 1, true, bracket :: outer => do
    match ← peekValue, bracket with
    | some 44, _ =>
      advance
      if bracket = .object then skipName
      skipRest steps false (bracket :: outer)
    | some 93, .list | some 125, .object =>
      advance
      skipRest steps true outer
    | some _, .list => failNext .expectedListEnd
    | some _, .object => failNext .expectedObjectEnd
    | none, .list => failNext .endOfList
    | none, .object => failNext .endOfObject
  | steps + 1, false, open_ => do
    match ← peekValue with
    | none => failNext .endOfValue
    | some 91 =>
      advance
      match ← peekValue with
      | none => failNext .endOfList
      | some 93 =>
        advance
        skipRest steps true open_
      | some _ => skipRest steps false (.list :: open_)
    | some 123 =>
      advance
      match ← peekValue with
      | none => failNext .endOfObject
      | some 125 =>
        advance
        skipRest steps true open_
      | some _ =>
        skipName
        skipRest steps false (.object :: open_)
    | some first =>
      skipScalar first
      skipRest steps true open_

/-- Passes over one value. -/
def skip : Reader Unit := do
  skipRest (2 * (← bound)) false []

end TypedSchema.Json.Reader
