import TypedSchema.Text.CaseTable
import TypedSchema.Text.Property

/-!
Case of characters and of whole texts. A text is lowered character by character, except that a
sigma at the end of a word takes its final form.
-/

namespace TypedSchema.Text

/-- The lower case of one character, which may be several. -/
def lowerChar (c : Char) : List Char :=
  if c.toNat < 128 then [c.toLower] else (lowerTable.image c.toNat).map Char.ofNat

/-- The upper case of one character, which may be several. -/
def upperChar (c : Char) : List Char :=
  if c.toNat < 128 then [c.toUpper] else (upperTable.image c.toNat).map Char.ofNat

/-- Whether the first character that is not skipped is cased. -/
def startsCased (text : List Char) : Bool :=
  match text.dropWhile isCaseIgnorable with
  | [] => false
  | c :: _ => isCased c

/-- Lowers the rest of a text; `before` is what precedes it, last character first. -/
def lowerAfter (before : List Char) : List Char → List Char
  | [] => []
  | c :: rest =>
    let lowered :=
      if c = 'Σ' then
        if startsCased before && !startsCased rest then ['ς'] else ['σ']
      else lowerChar c
    lowered ++ lowerAfter (c :: before) rest

def lower (text : List Char) : List Char :=
  lowerAfter [] text

def upper (text : List Char) : List Char :=
  text.flatMap upperChar

end TypedSchema.Text
