import WebModules.CommandLine.Arguments
import WebModules.Config
import WebModules.Install.Removal
import WebModules.Manifest

/-!
Running the program: what a command does to the files of a project, and what it says.
-/

namespace WebModules.CommandLine

/-- What a run says: lines of output, lines about what went wrong, and its exit status. -/
structure Output where
  status : Nat
  out : List String
  err : List String
  deriving DecidableEq, Repr, Inhabited

namespace Output

def linesText (lines : List String) : String :=
  String.join (lines.map fun line => line ++ "\n")

def outText (o : Output) : String := linesText o.out

def errText (o : Output) : String := linesText o.err

/-- A run that says one thing. -/
def saying (line : String) : Output := ⟨0, [line], []⟩

/-- A run of a command that ends with a failure, after other output. -/
def failing (command message : String) (before : Output) : Output :=
  ⟨1, before.out, before.err ++ ["webdeps " ++ command ++ ": " ++ message]⟩

def none : Output := ⟨0, [], []⟩

end Output

/-- Where a command is run, and with what. -/
structure Setting where
  network : Network
  config : Config
  projectRoot : String
  options : Options
  deriving Repr, Inhabited

/-- Why a command cannot install anything. -/
inductive SettingError
  | unknownRegistry (name : String)
  | registry (error : RegistryError)
  deriving DecidableEq, Repr, Inhabited

/-- What a command says about its setting. -/
def SettingError.lines (command : String) : SettingError → List String
  | unknownRegistry name =>
    ["webdeps " ++ command ++ ": unknown registry '" ++ name ++ "'",
      "Known registries: " ++ String.intercalate ", " (Backend.all.map Backend.name)]
  | registry e => ["webdeps " ++ command ++ ": " ++ e.message]

namespace Setting

variable (s : Setting)

def layout : Layout :=
  .of s.projectRoot (s.options.outputDir.getD s.config.outputDirectory)

def manifestPath : String := s.layout.manifestPath

/-- The backend of the only registry to be tried, if there is one. -/
def onlyBackend : Except SettingError (Option Backend) :=
  match s.options.registry with
  | none => .ok none
  | some name =>
    match Backend.ofName? name with
    | some b => .ok (some b)
    | none => .error (.unknownRegistry name)

/-- The installer for the registries that are asked for. -/
def installer : Except SettingError Installer := do
  let only ← s.onlyBackend
  match s.config.registries only with
  | .ok registries => return ⟨registries, s.layout⟩
  | .error e => .error (.registry e)

end Setting

/-- What is said about packages that were to be installed, and the requests that succeeded. -/
def reportInstalled (command : String) :
    List (PackageRequest × Except InstallError InstalledPackage) → Output × List PackageRequest
  | [] => (.none, [])
  | (request, result) :: results =>
    let (said, installed) := reportInstalled command results
    match result with
    | .ok package =>
      let line := "  installed " ++ package.request.text ++ " ("
        ++ toString package.modules.length ++ " module(s))"
      ({ said with out := line :: said.out }, package.request :: installed)
    | .error e =>
      let line := "webdeps " ++ command ++ ": " ++ request.text ++ ": " ++ e.explain.message
      ({ said with err := line :: said.err }, installed)

/-- Installs packages for a command within a run of its own, which keeps nothing fetched. -/
def installPackages (s : Setting) (i : Installer) (command : String)
    (requests : List PackageRequest) : StateM FileTree (Output × List PackageRequest) := fun t =>
  let (results, w) := i.installAll s.network requests ⟨t, .empty⟩
  (reportInstalled command results, w.files)

/-- The status of a run that was to do something about a number of packages. -/
def statusOf (done wanted : Nat) : Nat := if done < wanted then 1 else 0

def runInstall (s : Setting) (i : Installer) : StateM FileTree Output := do
  match Manifest.requests s.manifestPath (← get) with
  | .error e => return .failing "install" e.explain.message .none
  | .ok [] => return .saying "Nothing to install."
  | .ok requests =>
    let (said, installed) ← installPackages s i "install" requests
    let summary := "Installed " ++ toString installed.length ++ " of "
      ++ toString requests.length ++ " package(s)."
    return ⟨statusOf installed.length requests.length, said.out ++ [summary], said.err⟩

def runAdd (s : Setting) (i : Installer) (requests : List PackageRequest) :
    StateM FileTree Output := do
  let (said, installed) ← installPackages s i "add" requests
  let noted ← if installed.isEmpty then pure (.ok ()) else Manifest.add s.manifestPath installed
  match noted with
  | .error e => return .failing "add" e.explain.message said
  | .ok () =>
    let lines := installed.map fun r => "Added " ++ r.text ++ " to package.json"
    return ⟨statusOf installed.length requests.length, said.out ++ lines, said.err⟩

/-- Removes packages one after the other: what is said about them, and those that were removed. -/
def removePackages (i : Installer) :
    List PackageRequest → StateM FileTree (Output × List PackageRequest)
  | [] => return (.none, [])
  | request :: requests => do
    let result ← i.remove request
    let (said, removed) ← removePackages i requests
    match result with
    | .ok package =>
      let kept := if package.removal.ownerRetained then
        " (still imported by another package, files kept)" else ""
      let line := "  removed " ++ package.request.text ++ kept
      return ({ said with out := line :: said.out }, package.request :: removed)
    | .error e =>
      let line := "webdeps remove: " ++ request.text ++ ": " ++ e.explain.message
      return ({ said with err := line :: said.err }, removed)

def runRemove (s : Setting) (i : Installer) (requests : List PackageRequest) :
    StateM FileTree Output := do
  let (said, removed) ← removePackages i requests
  let noted ← if removed.isEmpty then pure (.ok []) else Manifest.remove s.manifestPath removed
  match noted with
  | .error e => return .failing "remove" e.explain.message said
  | .ok keys =>
    let lines := keys.map fun key => "Removed " ++ key ++ " from package.json"
    return ⟨statusOf removed.length requests.length, said.out ++ lines, said.err⟩

def runList (s : Setting) : StateM FileTree Output := do
  match (Store.mk s.layout.outputDir).listPackages (← get) with
  | [] => return .saying "No packages installed."
  | packages => return ⟨0, packages.map fun p => p.name ++ "@" ++ p.version, []⟩

/-- Runs a command that needs packages and an installer.  The packages are looked at first. -/
def runWith (s : Setting) (command : String) (packages : List String)
    (run : Installer → List PackageRequest → StateM FileTree Output) : StateM FileTree Output := do
  match packages.mapM PackageRequest.parse with
  | .error e => return .failing command e.message .none
  | .ok requests =>
    match s.installer with
    | .ok i => run i requests
    | .error e => return ⟨1, [], e.lines command⟩

def runCommand (s : Setting) : Command → StateM FileTree Output
  | .install => runWith s "install" [] fun i _ => runInstall s i
  | .add packages => runWith s "add" packages (runAdd s)
  | .remove packages => runWith s "remove" packages (runRemove s)
  | .list => runList s

def helpLines : List String :=
  ["Usage: webdeps [OPTIONS] <COMMAND>", "", "Commands: install, add, remove, list", "",
    "Options: -r, --registry <REGISTRY>; --out-dir <OUT_DIR>; -h, --help; -V, --version"]

def run (network : Network) (config : Config) (projectRoot : String) (args : List String) :
    StateM FileTree Output := do
  match parse args with
  | .version => return .saying "webdeps 0.1.0"
  | .help => return ⟨0, helpLines, []⟩
  | .invalid => return ⟨2, [], helpLines⟩
  | .run options command => runCommand ⟨network, config, projectRoot, options⟩ command

end WebModules.CommandLine
