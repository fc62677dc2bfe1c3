import WebModules.Path

/-!
Where the modules of packages are kept in a project, and what they are called in other modules.
-/

namespace WebModules

/-- The name that other modules import a module by: that of its package alone where the module is
named like the package. -/
def importName (name : String) (target : Option String) : String :=
  match target with
  | some target => if Path.stem target ≠ name then name ++ "/" ++ target else name
  | none => name

/-- The directories of a project. -/
structure Layout where
  projectRoot : String
  outputDir : String
  /-- The output directory as a path of a URL within the project, without slashes around it. -/
  urlRoot : String
  deriving DecidableEq, Repr, Inhabited

/-- The places of a module of a package. -/
structure Storage where
  dir : String
  path : String
  /-- The path of a URL of the directory. -/
  relativeDir : String
  /-- The path of a URL of the module. -/
  relativePath : String
  deriving DecidableEq, Repr, Inhabited

namespace Layout

/-- The layout of a project.  The output directory is relative to the project unless it is
absolute. -/
def of (projectRoot outputDir : String) : Layout :=
  let output := Path.push projectRoot outputDir
  let within := (Path.componentsAfter? projectRoot output).getD (Path.components output)
  ⟨projectRoot, output, String.intercalate "/" (within.filterMap Path.normalName?)⟩

def importMapPath (l : Layout) : String := Path.push l.outputDir "import-map.json"

def manifestPath (l : Layout) : String := Path.push l.projectRoot "package.json"

/-- The parts of a name between slashes. -/
def nameParts (name : String) : List String := (Text.split '/' name.toList).map String.ofList

/-- The directory of a version of a package below some directory. -/
def packageDir (root name version : String) : String :=
  Path.push (Path.pushAll root (nameParts name)) version

/-- The places of a module of a version of a package. -/
def storage (l : Layout) (name : String) (target : Option String) (version : String) : Storage :=
  let dir := packageDir l.outputDir name version
  let fileName := Path.stem (target.getD name) ++ ".js"
  let relativeDir :=
    if l.urlRoot.isEmpty then "/" ++ name ++ "/" ++ version ++ "/"
    else "/" ++ l.urlRoot ++ "/" ++ name ++ "/" ++ version ++ "/"
  ⟨dir, Path.push dir fileName, relativeDir, relativeDir ++ fileName⟩

/-- The file that the path of a URL stands for. -/
def pathFor (l : Layout) (relativePath : String) : String :=
  Path.pushAll l.projectRoot ((nameParts relativePath).filter fun part => !part.isEmpty)

end Layout

end WebModules
