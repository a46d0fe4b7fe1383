import TypedSchema.Json.Basic

/-!
Documents as text: compact on one line, or indented by two spaces with one item or member to a line.
Members are written in their order. Strings escape the quote, the backslash and controls.
-/

namespace TypedSchema.Json

/-- A character inside quotes. -/
def escapeChar (c : Char) : List Char :=
  if c = '"' then ['\\', '"']
  else if c = '\\' then ['\\', '\\']
  else if c = '\n' then ['\\', 'n']
  else if c = '\r' then ['\\', 'r']
  else if c = '\t' then ['\\', 't']
  else if c = '\x08' then ['\\', 'b']
  else if c = '\x0c' then ['\\', 'f']
  else if c.toNat < 16 then ['\\', 'u', '0', '0', '0'] ++ Nat.toDigits 16 c.toNat
  else if c.toNat < 32 then ['\\', 'u', '0', '0'] ++ Nat.toDigits 16 c.toNat
  else [c]

def quoted (text : String) : String :=
  String.ofList ('"' :: text.toList.flatMap escapeChar ++ ['"'])

/-- A value without parts. -/
def scalarText : Json → String
  | .null => "null"
  | .bool true => "true"
  | .bool false => "false"
  | .integer value => toString value
  | .float value => value.text Binary64.documentStyle
  | .string value => quoted value
  | .array _ => "[]"
  | .object _ => "\x7b\x7d"

mutual
/-- One line, no blanks. -/
def compact : Json → String
  | .array (item :: rest) => "[" ++ compact item ++ compactItems rest ++ "]"
  | .object ((name, value) :: rest) =>
    "\x7b" ++ quoted name ++ ":" ++ compact value ++ compactMembers rest ++ "\x7d"
  | scalar => scalarText scalar

def compactItems : List Json → String
  | [] => ""
  | item :: rest => "," ++ compact item ++ compactItems rest

def compactMembers : List (String × Json) → String
  | [] => ""
  | (name, value) :: rest => "," ++ quoted name ++ ":" ++ compact value ++ compactMembers rest
end

def newline (level : Nat) : String :=
  String.ofList ('\n' :: List.replicate (2 * level) ' ')

mutual
/-- Two spaces to a level. -/
def indented (level : Nat) : Json → String
  | .array (item :: rest) =>
    "[" ++ newline (level + 1) ++ indented (level + 1) item ++ indentedItems (level + 1) rest ++
      newline level ++ "]"
  | .object ((name, value) :: rest) =>
    "\x7b" ++ newline (level + 1) ++ quoted name ++ ": " ++ indented (level + 1) value ++
      indentedMembers (level + 1) rest ++ newline level ++ "\x7d"
  | scalar => scalarText scalar

def indentedItems (level : Nat) : List Json → String
  | [] => ""
  | item :: rest => "," ++ newline level ++ indented level item ++ indentedItems level rest

def indentedMembers (level : Nat) : List (String × Json) → String
  | [] => ""
  | (name, value) :: rest =>
    "," ++ newline level ++ quoted name ++ ": " ++ indented level value ++
      indentedMembers level rest
end

def pretty (json : Json) : String :=
  indented 0 json

end TypedSchema.Json
