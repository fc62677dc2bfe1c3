import WebModules.Path

/-!
Files and directories.  A tree is known by the names that lead from its root to each of its files
and directories; the root itself is always a directory.
-/

namespace WebModules

inductive FileNode
  | file (text : String)
  | directory
  deriving DecidableEq, Repr, Inhabited

/-- Why an operation on a tree failed. -/
inductive FileError
  | notFound
  | alreadyExists
  | notADirectory
  | isADirectory
  | directoryNotEmpty
  deriving DecidableEq, Repr, Inhabited

namespace FileError

def message : FileError → String
  | notFound => "No such file or directory (os error 2)"
  | alreadyExists => "File exists (os error 17)"
  | notADirectory => "Not a directory (os error 20)"
  | isADirectory => "Is a directory (os error 21)"
  | directoryNotEmpty => "Directory not empty (os error 39)"

end FileError

structure FileTree where
  /-- The files and directories below the root, in the order in which they were made. -/
  nodes : List (List String × FileNode)
  deriving DecidableEq, Repr, Inhabited

namespace FileTree

def empty : FileTree := ⟨[]⟩

/-- What the names from the root lead to. -/
def node? (t : FileTree) (names : List String) : Option FileNode :=
  if names.isEmpty then some .directory else t.nodes.lookup names

def put (t : FileTree) (names : List String) (node : FileNode) : FileTree :=
  if t.nodes.any fun n => n.1 == names then
    ⟨t.nodes.map fun n => if n.1 = names then (names, node) else n⟩
  else ⟨t.nodes ++ [(names, node)]⟩

def erase (t : FileTree) (names : List String) : FileTree :=
  ⟨t.nodes.filter fun n => n.1 ≠ names⟩

def children (t : FileTree) (names : List String) : List String :=
  t.nodes.filterMap fun n => if n.1.dropLast = names then n.1.getLast? else none

/-- The largest number of names that lead to a node of the tree. -/
def height (t : FileTree) : Nat := t.nodes.foldr (fun n levels => max n.1.length levels) 0

/-- Follows the parts of a path from a directory.  Each part but a dot leads on from a directory,
two dots to the directory above. -/
def enter (t : FileTree) (names : List String) : List String → Except FileError (List String)
  | [] => .ok names
  | part :: parts =>
    if part = "." then t.enter names parts
    else if part = ".." then t.enter names.dropLast parts
    else
      match t.node? (names ++ [part]) with
      | none => .error .notFound
      | some (.file _) => .error .notADirectory
      | some .directory => t.enter (names ++ [part]) parts

/-- The place that a path names. -/
structure Place where
  /-- The names that lead to a directory. -/
  directory : List String
  /-- A name in the directory, which need not exist; none if the directory itself is meant. -/
  name : Option String
  /-- Whether the path ends in a slash. -/
  slash : Bool
  deriving DecidableEq, Repr, Inhabited

/-- The parts of a path between slashes. -/
def parts (path : String) : List String :=
  ((Text.split '/' path.toList).filter fun part => !part.isEmpty).map String.ofList

/-- Finds the place that a path names.  All paths start at the root. -/
def locate (t : FileTree) (path : String) : Except FileError Place := do
  let slash := path.toList.getLast? = some '/'
  match (parts path).getLast? with
  | none => return ⟨[], none, slash⟩
  | some last =>
    if last = "." ∨ last = ".." then return ⟨← t.enter [] (parts path), none, slash⟩
    else return ⟨← t.enter [] (parts path).dropLast, some last, slash⟩

/-- The names that lead to what a path names, if that exists. -/
def find (t : FileTree) (path : String) : Except FileError (List String × FileNode) := do
  let place ← t.locate path
  match place.name with
  | none => return (place.directory, .directory)
  | some name =>
    match t.node? (place.directory ++ [name]) with
    | none => .error .notFound
    | some (.file text) =>
      if place.slash then .error .notADirectory
      else return (place.directory ++ [name], .file text)
    | some .directory => return (place.directory ++ [name], .directory)

def read (t : FileTree) (path : String) : Except FileError String := do
  match ← t.find path with
  | (_, .file text) => return text
  | (_, .directory) => .error .isADirectory

/-- The names that lead to a directory. -/
def findDirectory (t : FileTree) (path : String) : Except FileError (List String) := do
  match ← t.find path with
  | (_, .file _) => .error .notADirectory
  | (names, .directory) => return names

def isDirectory (t : FileTree) (path : String) : Bool := (t.findDirectory path).toBool

def readDirectory (t : FileTree) (path : String) : Except FileError (List String) := do
  return t.children (← t.findDirectory path)

/-- Writes a file, in the place of the file of that name if there is one. -/
def write (t : FileTree) (path text : String) : Except FileError FileTree := do
  let place ← t.locate path
  match place.name with
  | none => .error .isADirectory
  | some name =>
    let names := place.directory ++ [name]
    if place.slash ∨ t.node? names = some .directory then .error .isADirectory
    else return t.put names (.file text)

/-- Makes a directory in one that exists. -/
def makeDirectory (t : FileTree) (path : String) : Except FileError FileTree := do
  let place ← t.locate path
  match place.name with
  | none => .error .alreadyExists
  | some name =>
    let names := place.directory ++ [name]
    match t.node? names with
    | some _ => .error .alreadyExists
    | none => return t.put names .directory

def removeFile (t : FileTree) (path : String) : Except FileError FileTree := do
  match ← t.find path with
  | (_, .directory) => .error .isADirectory
  | (names, .file _) => return t.erase names

/-- Removes a directory that is empty. -/
def removeDirectory (t : FileTree) (path : String) : Except FileError FileTree := do
  let names ← t.findDirectory path
  let place ← t.locate path
  if place.name.isNone ∨ !(t.children names).isEmpty then .error .directoryNotEmpty
  else return t.erase names

/-- Makes a directory unless it exists. -/
def ensureDirectory (t : FileTree) (path : String) : Except FileError Unit × FileTree :=
  match t.makeDirectory path with
  | .ok t => (.ok (), t)
  | .error e => (if t.isDirectory path then .ok () else .error e, t)

/-- Makes a directory and up to a number of directories above it.  What has been made stays where a
directory below it cannot be made. -/
def makeDirectoriesUpTo : Nat → FileTree → String → Except FileError Unit × FileTree
  | 0, t, path => t.ensureDirectory path
  | above + 1, t, path =>
    match t.ensureDirectory path, Path.parent? path with
    | (.error .notFound, t), some parent =>
      match makeDirectoriesUpTo above t parent with
      | (.ok (), t) => t.ensureDirectory path
      | (.error e, t) => (.error e, t)
    | (result, t), _ => (result, t)

/-- Makes a directory and all directories above it, as far as they do not exist. -/
def makeDirectories (t : FileTree) (path : String) : Except FileError Unit × FileTree :=
  makeDirectoriesUpTo path.length t path

end FileTree

end WebModules
