/-!
Universally unique identifiers. They are written in lower case with hyphens, and read in any case,
with or without hyphens, in braces, or as a URN.
-/

namespace TypedSchema

structure Uuid where
  bits : BitVec 128
deriving DecidableEq, Repr

namespace Uuid

/-- How many digits stand between hyphens. -/
def groups : List Nat := [8, 4, 4, 4, 12]

/-- The 32 digits. -/
def digits (id : Uuid) : List Char :=
  let digits := Nat.toDigits 16 id.bits.toNat
  List.replicate (32 - digits.length) '0' ++ digits

/-- Digits in groups with hyphens between them. -/
def hyphenate : List Nat → List Char → List Char
  | [], _ => []
  | [last], digits => digits.take last
  | size :: sizes, digits => digits.take size ++ '-' :: hyphenate sizes (digits.drop size)

def text (id : Uuid) : String :=
  String.ofList (hyphenate groups id.digits)

def hexValue? (c : Char) : Option Nat :=
  if c.isDigit then some (c.toNat - 48)
  else if 'a' ≤ c && c ≤ 'f' then some (c.toNat - 87)
  else if 'A' ≤ c && c ≤ 'F' then some (c.toNat - 55)
  else none

def ofDigits? (digits : List Char) : Option Uuid :=
  if digits.length = 32 then
    (digits.mapM hexValue?).map fun values => ⟨BitVec.ofNat 128 (values.foldl (16 * · + ·) 0)⟩
  else none

/-- The digits of a text in groups with hyphens between them. -/
def unhyphenate? : List Nat → List Char → Option (List Char)
  | [], text => if text.isEmpty then some [] else none
  | [last], text => if text.length = last then some text else none
  | size :: sizes, text =>
    match text.drop size with
    | '-' :: rest => (unhyphenate? sizes rest).map (text.take size ++ ·)
    | _ => none

def ofHyphenated? (text : List Char) : Option Uuid :=
  (unhyphenate? groups text).bind ofDigits?

/-- What precedes the hyphenated form in a URN. -/
def urn : List Char := "urn:uuid:".toList

def ofText? (text : List Char) : Option Uuid :=
  match text with
  | '\x7b' :: rest =>
    if rest.getLast? = some '\x7d' then ofHyphenated? rest.dropLast else none
  | _ =>
    if (text.take urn.length).map Char.toLower = urn then ofHyphenated? (text.drop urn.length)
    else ofHyphenated? text <|> ofDigits? text

end Uuid

end TypedSchema
