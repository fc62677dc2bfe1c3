import WebModules.Explanation
import WebModules.FileTree
import WebModules.Package.Layout
import WebModules.Version

/-!
The directory that packages are installed in.  It holds a directory for each package, or one for
each scope with the directories of its packages, and in these a directory for each version.
-/

namespace WebModules

/-- Why something could not be done about the packages that are installed. -/
inductive StoreError
  | file (path : String) (error : FileError)
  | versionAmbiguous (name : String) (versions : List String)
  | notInstalled (name : String)
  deriving DecidableEq, Repr, Inhabited

namespace StoreError

def explain : StoreError → Explanation
  | file path e => .causedBy (path ++ ": " ++ e.message) ⟨e.message, []⟩
  | versionAmbiguous name versions =>
    ⟨"multiple versions of " ++ name ++ " are installed (" ++ String.intercalate ", " versions
      ++ "); specify one with " ++ name ++ "@<version>", []⟩
  | notInstalled name => ⟨name ++ " is not installed", []⟩

end StoreError

/-- A version of a package that is installed. -/
structure StoredPackage where
  name : String
  version : String
  path : String
  deriving DecidableEq, Repr, Inhabited

/-- The directory that packages are installed in. -/
structure Store where
  root : String
  deriving DecidableEq, Repr, Inhabited

namespace Store

variable (s : Store)

def packageDir (name version : String) : String := Layout.packageDir s.root name version

def isInstalled (name version : String) (t : FileTree) : Bool :=
  t.isDirectory (s.packageDir name version)

/-! Listing -/

/-- The package and the version that the names below the root stand for. -/
def packageOf? : List String → Option (String × String)
  | [name, version] => some (name, version)
  | [scope, name, version] =>
    if scope.toList.head? = some '@' then some (scope ++ "/" ++ name, version) else none
  | _ => none

/-- The package that a directory holds a version of, by where it lies below the root of the store. -/
def storedIn? (directory : String) : Option StoredPackage := do
  let below ← Path.componentsAfter? s.root directory
  let (name, version) ← packageOf? (below.map Path.Component.text)
  return ⟨name, version, directory⟩

/-- Whether a path is that of a module, by its extension. -/
def isModule (path : String) : Bool := (Path.fileName? path).bind Path.extension? == some "js"

/-- The versions of packages that have a module, in a directory and in those below it, at most a number
of levels deep. -/
def collectPackages (t : FileTree) : Nat → String → List StoredPackage
  | 0, _ => []
  | levels + 1, directory =>
    match t.readDirectory directory with
    | .error _ => []
    | .ok names =>
      let (directories, others) := (names.map (Path.push directory)).partition t.isDirectory
      let found := if others.any isModule then s.storedIn? directory else none
      found.toList ++ directories.flatMap (collectPackages t levels)

/-- Whether a package comes before another one: by its name, and by the text of its version. -/
def StoredPackage.before (a b : StoredPackage) : Bool :=
  a.name < b.name || (a.name == b.name && decide (a.version ≤ b.version))

/-- All versions of packages that have a module. -/
def listPackages (t : FileTree) : List StoredPackage :=
  (s.collectPackages t (t.height + 1) s.root).mergeSort StoredPackage.before

/-! Versions -/

/-- Whether a version belongs before another one: in the order of versions if they are both
semantic, and else in the order of their texts. -/
def versionBefore (a b : String) : Bool :=
  match Version.parse? a, Version.parse? b with
  | some v, some w => v.order w == .lt
  | _, _ => a < b

/-- Puts a version before those at the end that it belongs before.  The last version comes first. -/
def insertVersion (version : String) : List String → List String
  | [] => [version]
  | last :: others =>
    if versionBefore version last then last :: insertVersion version others
    else version :: last :: others

def sortVersions (versions : List String) : List String :=
  (versions.foldl (fun sorted v => insertVersion v sorted) []).reverse

/-- The versions of a package that are installed, in their order. -/
def versions (name : String) (t : FileTree) : List String :=
  match t.findDirectory (Path.pushAll s.root (Layout.nameParts name)) with
  | .error _ => []
  | .ok names =>
    sortVersions ((t.children names).filter fun version =>
      t.node? (names ++ [version]) == some .directory)

/-- The only version of a package that is installed. -/
def localVersion (name : String) (t : FileTree) : Except StoreError String :=
  match s.versions name t with
  | [] => .error (.notInstalled name)
  | [version] => .ok version
  | versions => .error (.versionAmbiguous name versions)

/-! Removing -/

/-- Removes a directory and those above it as far as they are empty, up to the root and at most a
number of them.  Tells what has been removed. -/
def prune : Nat → FileTree → Option String → List String × FileTree
  | 0, t, _ => ([], t)
  | _, t, none => ([], t)
  | above + 1, t, some directory =>
    if Path.same directory s.root || !Path.startsWith s.root directory then ([], t)
    else
      match t.removeDirectory directory with
      | .error _ => ([], t)
      | .ok t =>
        let (removed, t) := prune above t (Path.parent? directory)
        (directory :: removed, t)

/-- Removes a file, if it exists, and the directories that are empty without it.  Tells what has
been removed, the innermost first. -/
def removeFile (file : String) : StateM FileTree (Except StoreError (List String)) := fun t =>
  let above := s.prune file.length
  match t.removeFile file with
  | .ok t =>
    let (removed, t) := above t (Path.parent? file)
    (.ok (file :: removed), t)
  | .error .notFound =>
    let (removed, t) := above t (Path.parent? file)
    (.ok removed, t)
  | .error e => (.error (.file file e), t)

end Store

end WebModules
