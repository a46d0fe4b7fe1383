/-!
What the program needs of a file system, in any monad that has one.
-/

namespace TypedSchema.Files

inductive OsError where
  | notFound
  | present
  | notDirectory
  | isDirectory
  | nameTooLong
  | other (text : String)
deriving DecidableEq

def OsError.message : OsError → String
  | .notFound => "No such file or directory (os error 2)"
  | .present => "File exists (os error 17)"
  | .notDirectory => "Not a directory (os error 20)"
  | .isDirectory => "Is a directory (os error 21)"
  | .nameTooLong => "File name too long (os error 36)"
  | .other text => text

structure FileSystem (m : Type → Type) where
  read : String → m (Except OsError (List UInt8))
  /-- Makes or replaces a file. -/
  write : String → String → m (Except OsError Unit)
  /-- Makes a directory, and those above it that are missing. -/
  createDirectories : String → m (Except OsError Unit)
  isPresent : String → m Bool
  isDirectory : String → m Bool
  /-- The names in a directory, in any order. -/
  names : String → m (List String)

end TypedSchema.Files
