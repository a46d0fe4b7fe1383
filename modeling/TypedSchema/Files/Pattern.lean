/-!
Patterns of file names: `?` stands for any character, `*` for any characters, and `[ab-d]` or
`[!ab-d]` for one character within or outside a set. A step `**` stands for any directories.
-/

namespace TypedSchema.Files

/-- One character, or all from one to another. -/
inductive CharClass where
  | single (c : Char)
  | range (first last : Char)
deriving DecidableEq

inductive Token where
  | char (c : Char)
  | anyChar
  | anyText
  | anyDirectories
  | within (classes : List CharClass)
  | outside (classes : List CharClass)
deriving DecidableEq

abbrev Pattern := List Token

inductive PatternFault where
  | wildcards
  | directoriesInStep
  | charClass
deriving DecidableEq

def PatternFault.message : PatternFault → String
  | .wildcards => "wildcards are either regular `*` or recursive `**`"
  | .directoriesInStep => "recursive wildcards must form a single path component"
  | .charClass => "invalid range pattern"

structure PatternError where
  position : Nat
  fault : PatternFault

def PatternError.message (error : PatternError) : String :=
  s!"Pattern syntax error near position {error.position}: {error.fault.message}"

/-! ## Reading -/

/-- The classes inside brackets. -/
def charClasses : List Char → List CharClass
  | first :: '-' :: last :: rest => .range first last :: charClasses rest
  | c :: rest => .single c :: charClasses rest
  | [] => []

/-- What is inside brackets whose first character may be the closing bracket itself. -/
def bracketed? : List Char → Option (List Char)
  | [] => none
  | first :: rest =>
    if rest.contains ']' then some (first :: rest.takeWhile (· ≠ ']')) else none

/-- The token behind an opening bracket, and the number of characters it takes. -/
def bracketToken? : List Char → Option (Token × Nat)
  | '!' :: rest =>
    (bracketed? rest).map fun inside => (.outside (charClasses inside), inside.length + 2)
  | rest =>
    (bracketed? rest).map fun inside => (.within (charClasses inside), inside.length + 1)

/-- The token of one or more stars, and the number of characters behind the first that it takes. -/
def starToken (position : Nat) (stepStart : Bool) (rest : List Char) :
    Except PatternError (Token × Nat) :=
  match rest with
  | '*' :: '*' :: _ => .error ⟨position + 2, .wildcards⟩
  | ['*'] =>
    if stepStart then .ok (.anyDirectories, 1) else .error ⟨position - 1, .directoriesInStep⟩
  | '*' :: '/' :: _ =>
    if stepStart then .ok (.anyDirectories, 2) else .error ⟨position - 1, .directoriesInStep⟩
  | '*' :: _ =>
    .error ⟨if stepStart then position + 2 else position - 1, .directoriesInStep⟩
  | _ => .ok (.anyText, 0)

/-- Reads tokens from a position. So many characters as `taken` says belong to the last token. -/
def readTokens : Nat → Bool → Nat → List Char → Except PatternError Pattern
  | _, _, _, [] => .ok []
  | position, _, taken + 1, c :: rest => readTokens (position + 1) (c = '/') taken rest
  | position, _, 0, '?' :: rest =>
    return .anyChar :: (← readTokens (position + 1) false 0 rest)
  | position, stepStart, 0, '*' :: rest => do
    let (token, taken) ← starToken position stepStart rest
    return token :: (← readTokens (position + 1) false taken rest)
  | position, _, 0, '[' :: rest =>
    match bracketToken? rest with
    | none => .error ⟨position, .charClass⟩
    | some (token, taken) => return token :: (← readTokens (position + 1) false taken rest)
  | position, _, 0, c :: rest =>
    return .char c :: (← readTokens (position + 1) (c = '/') 0 rest)

namespace Pattern

def ofString (text : String) : Except PatternError Pattern :=
  readTokens 0 true 0 text.toList

/-- Whether the pattern stands for any directories. -/
def isRecursive (pattern : Pattern) : Bool :=
  pattern.contains .anyDirectories

/-- The only text that the pattern stands for, if it has no wildcards. -/
def literal? (pattern : Pattern) : Option String :=
  (pattern.mapM fun
    | Token.char c => some c
    | _ => none).map String.ofList

end Pattern

/-! ## Matching -/

def CharClass.has (c : Char) : CharClass → Bool
  | .single only => c = only
  | .range first last => first ≤ c && c ≤ last

/-- Whether a token stands for a character. -/
def Token.allows (c : Char) : Token → Bool
  | .char only => c = only
  | .within classes => classes.any (CharClass.has c)
  | .outside classes => !classes.any (CharClass.has c)
  | _ => true

/-- Whether a text ends, from some place on, in one that is accepted. -/
def someTail (accepts : List Char → Bool) : List Char → Bool
  | [] => accepts []
  | c :: rest => accepts (c :: rest) || someTail accepts rest

namespace Pattern

def matchesChars : Pattern → List Char → Bool
  | [], text => text.isEmpty
  | .anyText :: pattern, text => someTail (matchesChars pattern) text
  | .anyDirectories :: pattern, text => someTail (matchesChars pattern) text
  | _ :: _, [] => false
  | token :: pattern, c :: text => token.allows c && matchesChars pattern text

def matchesName (pattern : Pattern) (name : String) : Bool :=
  matchesChars pattern name.toList

end Pattern

end TypedSchema.Files
