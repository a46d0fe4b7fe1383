import TypedSchema.Text.Property

/-!
Texts between quotes, as values are shown in messages: the quote, the backslash and the usual
controls are escaped by a letter, and whatever cannot be seen on its own by its code point.
-/

namespace TypedSchema.Text

/-- The digits of a code point, lower case and without padding. -/
def hexDigits (code : Nat) : List Char :=
  Nat.toDigits 16 code

def quoteChar (c : Char) : List Char :=
  if c = '"' then ['\\', '"']
  else if c = '\\' then ['\\', '\\']
  else if c = '\n' then ['\\', 'n']
  else if c = '\r' then ['\\', 'r']
  else if c = '\t' then ['\\', 't']
  else if c = '\x00' then ['\\', '0']
  else if isEscaped c then ['\\', 'u', '\x7b'] ++ hexDigits c.toNat ++ ['\x7d']
  else [c]

def quote (text : String) : String :=
  String.ofList ('"' :: text.toList.flatMap quoteChar ++ ['"'])

end TypedSchema.Text
