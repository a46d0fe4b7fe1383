import TypedSchema.Fields
import TypedSchema.Files.Path
import TypedSchema.Files.System

/-!
A file system in memory: a tree of directories and files. Places in it are lists of names from the
top, and the directory above the top is the top.
-/

namespace TypedSchema.Files

inductive Tree where
  | file (text : String)
  | directory (entries : List (String × Tree))

namespace Tree

def empty : Tree :=
  .directory []

def find? : Tree → List String → Option Tree
  | tree, [] => some tree
  | .directory entries, name :: rest =>
    match Fields.get? entries name with
    | some tree => find? tree rest
    | none => none
  | .file _, _ :: _ => none

/-- The tree with something put in a place, and the directories above it made where they are
missing. -/
def put : Tree → List String → Tree → Tree
  | _, [], added => added
  | .directory entries, name :: rest, added =>
    .directory (Fields.insert entries name
      (put ((Fields.get? entries name).getD empty) rest added))
  | .file text, _ :: _, _ => .file text

/-! ## Paths -/

/-- The greatest number of bytes in a name. -/
def longestName : Nat := 255

/-- The place that steps lead to from a place, which is given upwards. -/
def walk (tree : Tree) : List String → List String → Except OsError (List String)
  | here, [] => .ok here.reverse
  | here, step :: rest =>
    match tree.find? here.reverse with
    | none => .error .notFound
    | some (.file _) => .error .notDirectory
    | some (.directory entries) =>
      if stays step then walk tree here rest
      else if step = ".." then walk tree here.tail rest
      else if longestName < step.utf8ByteSize then .error .nameTooLong
      else if Fields.has entries step then walk tree (step :: here) rest
      else .error .notFound

/-- A path that a system accepts. -/
def accepted (path : String) : Except OsError Unit :=
  if longestPath ≤ path.utf8ByteSize then .error .nameTooLong else .ok ()

def place (tree : Tree) (path : String) : Except OsError (List String) := do
  accepted path
  if path.isEmpty then throw .notFound
  walk tree [] (steps path)

/-- What a path leads to. -/
def atPath (tree : Tree) (path : String) : Except OsError Tree := do
  match tree.find? (← tree.place path) with
  | some found => return found
  | none => throw .notFound

def read (tree : Tree) (path : String) : Except OsError String := do
  match ← tree.atPath path with
  | .file text => return text
  | .directory _ => throw .isDirectory

/-- The tree with a file made or replaced, which has to be in a directory. -/
def write (tree : Tree) (path text : String) : Except OsError Tree := do
  accepted path
  let parent ← walk tree [] (steps path).dropLast
  match tree.find? parent, (steps path).getLast? with
  | some (.directory entries), some name =>
    if stays name || name = ".." then throw .isDirectory
    if longestName < name.utf8ByteSize then throw .nameTooLong
    match Fields.get? entries name with
    | some (.directory _) => throw .isDirectory
    | _ => return tree.put (parent ++ [name]) (.file text)
  | some (.file _), _ => throw .notDirectory
  | _, _ => throw .notFound

/-- The tree with the directories made that steps lead through. -/
def createAlong : Tree → List String → List String → Except OsError Tree
  | tree, _, [] => .ok tree
  | tree, here, step :: rest =>
    if stays step then createAlong tree here rest
    else if step = ".." then createAlong tree here.tail rest
    else if longestName < step.utf8ByteSize then .error .nameTooLong
    else
      match tree.find? (step :: here).reverse with
      | none => createAlong (tree.put (step :: here).reverse empty) (step :: here) rest
      | some (.directory _) => createAlong tree (step :: here) rest
      | some (.file _) => .error (if rest.all (· = "") then .present else .notDirectory)

def createDirectories (tree : Tree) (path : String) : Except OsError Tree := do
  accepted path
  createAlong tree [] (steps path)

def isDirectory : Tree → Bool
  | .directory _ => true
  | .file _ => false

def names : Tree → List String
  | .directory entries => Fields.names entries
  | .file _ => []

mutual
/-- The files of a tree with their paths, which start with `above`. -/
def filesUnder (above : String) : Tree → List (String × String)
  | .file text => [(above, text)]
  | .directory entries => filesOf above entries

def filesOf (above : String) : List (String × Tree) → List (String × String)
  | [] => []
  | (name, tree) :: rest => filesUnder (join above name) tree ++ filesOf above rest
end

def files (tree : Tree) : List (String × String) :=
  filesUnder "" tree

/-- The tree of files with their paths. -/
def ofFiles (files : List (String × String)) : Tree :=
  files.foldl (fun tree (path, text) => tree.put (steps path) (.file text)) empty

/-- Takes on a changed tree. -/
def change (changed : Tree → Except OsError Tree) : StateM Tree (Except OsError Unit) := do
  match changed (← get) with
  | .ok tree => set tree; return .ok ()
  | .error error => return .error error

def system : FileSystem (StateM Tree) where
  read path := return ((← get).read path).map (·.toUTF8.toList)
  write path text := change (·.write path text)
  createDirectories path := change (·.createDirectories path)
  isPresent path := return ((← get).place path).toBool
  isDirectory path := return (((← get).atPath path).map isDirectory).toOption.getD false
  names path := return (((← get).atPath path).map names).toOption.getD []

end Tree

end TypedSchema.Files
