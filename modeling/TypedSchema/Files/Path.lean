/-!
Paths as texts: steps with slashes between them. A step that is empty or `.` stays where it is, and
`..` leads to the directory above.
-/

namespace TypedSchema.Files

/-- A system accepts paths with fewer bytes than this. -/
def longestPath : Nat := 4096

/-- The parts of a text between slashes. -/
def splitSlashes : List Char → List (List Char)
  | [] => [[]]
  | c :: rest =>
    if c = '/' then [] :: splitSlashes rest
    else
      match splitSlashes rest with
      | [] => [[c]]
      | first :: others => (c :: first) :: others

def steps (path : String) : List String :=
  (splitSlashes path.toList).map String.ofList

/-- Whether a step stays where it is. -/
def stays (step : String) : Bool :=
  step = "" || step = "."

/-- The path of a step further. -/
def join (path step : String) : String :=
  if path.isEmpty then step
  else if path.toList.getLast? = some '/' then path ++ step
  else path ++ "/" ++ step

/-- The name of what a path leads to, if its last step does not lead upwards. -/
def fileName? (path : String) : Option String :=
  match ((steps path).filter fun step => !stays step).getLast? with
  | some ".." => none
  | last => last

end TypedSchema.Files
