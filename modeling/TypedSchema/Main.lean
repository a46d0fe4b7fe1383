import TypedSchema.Command.Run

/-!
The program: commands on the files of the machine.
-/

namespace TypedSchema

open Files

/-- The error of the machine. Some calls give the code negated. -/
def OsError.ofSystem : IO.Error → OsError
  | .noFileOrDirectory .. => .notFound
  | .alreadyExists .. => .present
  | .inappropriateType _ code details =>
    if code = 20 || code = -20 then .notDirectory
    else if code = 21 || code = -21 then .isDirectory
    else .other details
  | .invalidArgument _ code details =>
    if code = 36 || code = -36 then .nameTooLong else .other details
  | error => .other (toString error)

/-- What an action gives, or the error of the system. -/
def attempted {α : Type} (action : IO α) : IO (Except OsError α) := do
  try return .ok (← action)
  catch error => return .error (OsError.ofSystem error)

/-- A path seen from the working directory. -/
def located (path : String) := do
  return (← IO.currentDir) / path

def machineFiles : FileSystem IO where
  read path := attempted do return (← IO.FS.readBinFile path).toList
  write path text := attempted (IO.FS.writeFile path text)
  createDirectories path := attempted (IO.FS.createDirAll path)
  isPresent path := do (← located path).pathExists
  isDirectory path := do (← located path).isDir
  names path := do
    return (← (← located path).readDir).toList.map fun entry => entry.fileName

/-- Colours are on if they are asked for, and else on a terminal unless they are turned off. -/
def wantsColours : IO Bool := do
  let forced ← IO.getEnv "CLICOLOR_FORCE"
  if forced.isSome && forced ≠ some "0" then return true
  if (← IO.getEnv "NO_COLOR").isSome then return false
  (← IO.getStdout).isTty

end TypedSchema

open TypedSchema in
def main (arguments : List String) : IO UInt32 := do
  let outcome ← Command.runArguments machineFiles (← wantsColours) arguments
  IO.print outcome.printed.out
  IO.eprint outcome.printed.err
  return outcome.exit.toUInt32
