import WebModules.FileTree
import WebModules.Install.Error
import WebModules.Package.Request
import WebModules.Registry.Client
import WebModules.Schedule.Pipeline

/-!
Installing packages.  A package is installed in stages: a registry that has it is chosen, its
version and its modules are found, the modules are entered in the import map, and at last their
files are written.  Each stage ends for all modules before the next one begins.
-/

namespace WebModules

open Schedule

/-- What installing changes: the files, and what has been requested and kept. -/
structure World where
  files : FileTree
  traffic : Traffic
  deriving DecidableEq, Repr, Inhabited

namespace World

variable {α : Type}

def onFiles (work : StateM FileTree α) : StateM World α := fun w =>
  let (a, files) := work w.files
  (a, { w with files := files })

def onTraffic (work : StateM Traffic α) : StateM World α := fun w =>
  let (a, traffic) := work w.traffic
  (a, { w with traffic := traffic })

end World

/-- What a project installs packages from, and where to. -/
structure Installer where
  /-- The registries in the order in which they are tried. -/
  registries : List Registry
  layout : Layout
  deriving DecidableEq, Repr, Inhabited

/-- A package of which all modules are known. -/
structure ResolvedPackage where
  request : PackageRequest
  registry : Registry
  /-- The module that was asked for, and then each module once for each that imports it. -/
  modules : List MappedModule
  deriving DecidableEq, Repr, Inhabited

/-- A package that has been installed. -/
structure InstalledPackage where
  /-- The request, with the version that was installed. -/
  request : PackageRequest
  registry : Registry
  /-- The modules that have been written, the one that was asked for first. -/
  modules : List MappedModule
  deriving DecidableEq, Repr, Inhabited

/-- The module that was asked for. -/
def InstalledPackage.root? (p : InstalledPackage) : Option PackageModule :=
  (p.modules.find? MappedModule.isRoot).map MappedModule.module

namespace Installer

variable (i : Installer) (n : Network)

def store : Store := ⟨i.layout.outputDir⟩

def importMapPath : String := i.layout.importMapPath

/-! Finding the modules -/

def findRegistry (request : PackageRequest) : List Registry → StateM Traffic (Option Registry)
  | [] => return none
  | r :: rs => do
    if ← r.has n request.name request.target request.version then return some r
    else findRegistry request rs

/-- The modules that can be reached from the one for an entrypoint.  That one must be a module. -/
def graphOf (r : Registry) (entrypoint : String) :
    StateM Traffic (Except InstallError (DependencyGraph RegistryError)) := do
  let loader : Loader Traffic RegistryError := fun path => do return .now (← r.load n path)
  let graph ← resolve (Exploration.limitFor n.texts n.locations) loader entrypoint
  match graph.takeFailure entrypoint with
  | (some e, _) => return .error (.resolve entrypoint e)
  | (none, graph) => return .ok graph

/-- What the module for an entrypoint of a graph is.  Modules that the registry cannot tell are left
out. -/
def describe (r : Registry) (root : PackageModule) (entrypoint : String) :
    StateM Traffic (Option PackageModule) := do
  if entrypoint = root.entrypoint then return some root
  else
    match ← r.identify n entrypoint with
    | .ok m => return some (.identified i.layout m entrypoint)
    | .error _ => return none

/-- The modules of a graph, as far as they are known by their entrypoints: the root, and then for each
module everything that it depends on, once. -/
def mappedModules (root : PackageModule) (graph : DependencyGraph RegistryError)
    (known : List (String × PackageModule)) : List MappedModule :=
  let dependencies (edge : String × List String) : List MappedModule :=
    match known.lookup edge.1 with
    | none => []
    | some importer =>
      edge.2.eraseDups.filterMap fun child =>
        (known.lookup child).map fun m => ⟨m, some importer⟩
  ⟨root, none⟩ :: graph.edges.flatMap dependencies

/-- All modules of a graph that are to be installed. -/
def modulesOf (r : Registry) (root : PackageModule) (graph : DependencyGraph RegistryError) :
    StateM Traffic (List MappedModule) := do
  let described ← graph.entrypoints.mapM fun entrypoint => do
    return (← i.describe n r root entrypoint).map fun m => (entrypoint, m)
  return mappedModules root graph (described.filterMap id)

/-- Finds everything that belongs to a package, without changing the project. -/
def find (request : PackageRequest) : StateM Traffic (Except InstallError ResolvedPackage) := do
  let ⟨name, target, version⟩ := request
  match ← findRegistry n request i.registries with
  | none => return .error (.registry (.notFound request.text))
  | some r =>
    match ← r.version n name target version with
    | .error e => return .error (.registry e)
    | .ok concrete =>
      let root := PackageModule.of i.layout name target concrete (r.entrypoint name target version)
      match ← graphOf n r root.entrypoint with
      | .error e => return .error e
      | .ok graph => return .ok ⟨request, r, ← i.modulesOf n r root graph⟩

/-! Changing the project -/

/-- Enters a module in the import map. -/
def persist (m : MappedModule) : StateM World (Except InstallError MappedModule) := do
  match ← World.onFiles (ImportMap.persist i.importMapPath (ImportMap.fragment m)) with
  | .ok () => return .ok m
  | .error e => return .error (.importMap e)

/-- The name that a module imports another one by, or the specifier as it is if the registry cannot
tell what that module is. -/
def nameFor (r : Registry) (location specifier : String) : StateM Traffic String := do
  match ← r.identify n (Specifier.join location specifier) with
  | .ok m => return m.importName
  | .error _ => return specifier

/-- Fetches a module and replaces its specifiers by names. -/
def prepareText (r : Registry) (entrypoint : String) :
    StateM Traffic (Except InstallError String) := do
  match ← r.load n entrypoint with
  | .error e => return .error (.registry e)
  | .ok loaded =>
    match ← rewriteFinding (nameFor n r loaded.location) loaded.source with
    | .error e => return .error (.rewrite entrypoint e)
    | .ok text => return .ok text

def writeModule (storage : Storage) (text : String) : StateM FileTree (Except InstallError Unit) :=
  fun t =>
    match t.makeDirectories storage.dir with
    | (.error e, t) => (.error (.file storage.dir e), t)
    | (.ok (), t) =>
      match t.write storage.path text with
      | .ok t => (.ok (), t)
      | .error e => (.error (.file storage.path e), t)

/-- Fetches a module and writes its file. -/
def download (r : Registry) (m : MappedModule) :
    StateM World (Except InstallError MappedModule) := do
  match ← World.onTraffic (prepareText n r m.module.entrypoint) with
  | .error e => return .error e
  | .ok text =>
    match ← World.onFiles (writeModule m.module.storage text) with
    | .error e => return .error e
    | .ok () => return .ok m

/-- The first module for each path, as the components of paths tell them apart. -/
def distinctFiles (ms : List MappedModule) : List MappedModule :=
  ms.foldl (fun kept m =>
    if kept.any fun k => Path.same k.module.storage.path m.module.storage.path then kept
    else kept ++ [m]) []

def persistAll (p : ResolvedPackage) : StateM World (Except InstallError ResolvedPackage) := do
  match ← Pipeline.map (fun m => Work.now (i.persist m)) p.modules with
  | .error e => return .error e
  | .ok ms => return .ok { p with modules := ms }

def downloadAll (p : ResolvedPackage) : StateM World (Except InstallError InstalledPackage) := do
  match ← Pipeline.map (fun m => Work.now (download n p.registry m)) (distinctFiles p.modules) with
  | .error e => return .error e
  | .ok ms =>
    let version := (ms.find? MappedModule.isRoot).map fun m => m.module.version
    return .ok ⟨{ p.request with version := version }, p.registry, ms⟩

/-! Installing -/

/-- Goes on with work that has not failed. -/
def goOn {α β : Type} (next : α → StateM World (Except InstallError β)) :
    Except InstallError α → StateM World (Except InstallError β)
  | .ok a => next a
  | .error e => return .error e

def install (request : PackageRequest) : StateM World (Except InstallError InstalledPackage) := do
  let found ← World.onTraffic (i.find n request)
  let persisted ← goOn i.persistAll found
  goOn (downloadAll n) persisted

/-- Installs packages together: the modules of all of them are found before the import map is
changed, and the import map is complete before files are written.  If one of them fails, that does
not matter to the others. -/
def installAll (requests : List PackageRequest) :
    StateM World (List (PackageRequest × Except InstallError InstalledPackage)) := do
  let found ← requests.mapM fun request => World.onTraffic (i.find n request)
  let persisted ← found.mapM (goOn i.persistAll)
  let installed ← persisted.mapM (goOn (downloadAll n))
  return requests.zip installed

end Installer

end WebModules
