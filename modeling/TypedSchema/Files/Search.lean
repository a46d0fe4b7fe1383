import TypedSchema.Files.Path
import TypedSchema.Files.Pattern
import TypedSchema.Files.System

/-!
The paths that a pattern stands for. The steps of a pattern are followed from a directory down; the
names in a directory are taken in ascending order, and what is found below a name comes before the
next name.
-/

namespace TypedSchema.Files

/-- A path that was met, and whether it is a directory. -/
structure Found where
  path : String
  directory : Bool

/-- The path of a step from a place; a search starts at `.`, which is not written. -/
def pathFrom (place step : String) : String :=
  if (steps place).all (· = ".") then step else join place step

variable {m : Type → Type} [Monad m]

def lookAt (system : FileSystem m) (path : String) : m Found :=
  return ⟨path, ← system.isDirectory path⟩

/-- What is in a directory, in ascending order. -/
def children (system : FileSystem m) (place : Found) : m (List Found) := do
  if place.directory then
    let names ← system.names place.path
    (names.mergeSort (fun first second => !(second < first))).mapM fun name =>
      lookAt system (pathFrom place.path name)
  else return []

/-- The directories `..` and `.`, where a step matches them. Only one that begins with a dot
does. -/
def dotDirectories (system : FileSystem m) (pattern : Pattern) (place : Found) :
    m (List Found) :=
  if place.directory && pattern.head? = some (.char '.') then
    (["..", "."].filter pattern.matchesName).mapM fun step =>
      lookAt system (join place.path step)
  else return []

/-- What a step without wildcards leads to. -/
def literalStep (system : FileSystem m) (place : Found) (step : String) : m (List Found) := do
  let next := pathFrom place.path step
  let reached ← if step = "." || step = ".." then pure place.directory else system.isPresent next
  if reached then return [← lookAt system next] else return []

/-- All results for a list of places, in order. -/
def collect (results : Found → m (List Found)) (places : List Found) : m (List Found) :=
  return (← places.mapM results).flatten

mutual
/-- What the steps of a pattern lead to from a place. A bound on the length of paths ends the
search. -/
def follow (system : FileSystem m) : Nat → List Pattern → Found → m (List Found)
  | 0, _, _ => return []
  | _ + 1, [], place => return [place]
  | bound + 1, pattern :: rest, place =>
    match pattern.literal? with
    | some step => do
      collect (follow system bound rest) (← literalStep system place step)
    | none => do
      let dots ← collect (follow system bound rest) (← dotDirectories system pattern place)
      let others ← collect (visit system bound pattern rest) (← children system place)
      return dots ++ others

/-- What the steps lead to whose first one is to match a child of a directory. -/
def visit (system : FileSystem m) : Nat → Pattern → List Pattern → Found → m (List Found)
  | 0, _, _, _ => return []
  | bound + 1, pattern, rest, child => do
    if pattern.isRecursive then
      let rest := rest.dropWhile Pattern.isRecursive
      let below ← if child.directory then follow system bound (pattern :: rest) child else pure []
      match rest with
      | [] => return if child.directory then child :: below else []
      | next :: rest => return (← matched system bound next rest child) ++ below
    else matched system bound pattern rest child

/-- What the steps lead to behind a child, if the first one matches its name. -/
def matched (system : FileSystem m) : Nat → Pattern → List Pattern → Found → m (List Found)
  | 0, _, _, _ => return []
  | bound + 1, pattern, rest, child =>
    match fileName? child.path with
    | some name =>
      if pattern.matchesName name then follow system bound rest child else return []
    | none => return []
end

def isAbsolute (path : String) : Bool :=
  path.toList.head? = some '/'

/-- The patterns of the steps of a text. A slash at its start or end makes no further step. -/
def patternSteps (text : String) : Except PatternError (List Pattern) := do
  let _ ← Pattern.ofString text
  let parts := if isAbsolute text then (steps text).tail else steps text
  let parts := if parts.getLast? = some "" then parts.dropLast else parts
  parts.mapM Pattern.ofString

/-- The paths that a pattern stands for. One that ends with a slash stands for directories. -/
def search (system : FileSystem m) (text : String) : m (Except PatternError (List String)) := do
  match patternSteps text with
  | .error error => return .error error
  | .ok patterns =>
    let start ← lookAt system (if isAbsolute text then "/" else ".")
    let found ← follow system (3 * (patterns.length + longestPath)) patterns start
    let directoriesOnly := text.toList.getLast? = some '/'
    return .ok ((found.filter fun place => !directoriesOnly || place.directory).map Found.path)

end TypedSchema.Files
