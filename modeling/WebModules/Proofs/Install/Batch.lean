import Mathlib.Logic.Relation
import WebModules.Proofs.Install.Unusable
import WebModules.Proofs.Schedule.Task

/-!
Packages that are installed together.  Each of them goes through its stages on its own, and within a
stage its modules are worked on together, so that a turn is one of a package and of one of its modules.
A turn requests one module, enters one module in the import map, which no one else changes meanwhile,
makes one directory or writes one file.
-/

namespace WebModules

open Schedule

namespace Installer

variable (i : Installer) (n : Network)

/-! The work of a stage -/

/-- A request, or what has been kept of one. -/
def asking {α : Type} (work : StateM Traffic α) : Task World α := .once (World.onTraffic work)

def choosingRegistry (request : PackageRequest) : List Registry → Task World (Option Registry)
  | [] => return none
  | r :: rs => do
    if ← asking (r.has n request.name request.target request.version) then return some r
    else choosingRegistry request rs

/-- Chooses a registry and finds its version of a package. -/
def choosing (request : PackageRequest) : Task World (Except InstallError (Registry × PackageModule)) := do
  match ← choosingRegistry n request i.registries with
  | none => return .error (.registry (.notFound request.text))
  | some r =>
    match ← asking (r.version n request.name request.target request.version) with
    | .error e => return .error (.registry e)
    | .ok version => return .ok (r, i.rootOf r request version)

def describing (r : Registry) (root : PackageModule) (entrypoint : String) :
    Task World (Option (String × PackageModule)) := do
  return (← asking (i.describe n r root entrypoint)).map fun m => (entrypoint, m)

def preparing (r : Registry) (entrypoint : String) : Task World (Except InstallError String) := do
  match ← asking (r.load n entrypoint) with
  | .error e => return .error (.registry e)
  | .ok loaded =>
    match Script.walk loaded.source with
    | .error e => return .error (.rewrite entrypoint (.syntaxError e))
    | .ok records =>
      match Rewrite.plan records with
      | .error e => return .error (.rewrite entrypoint e)
      | .ok ds =>
        let names ← ds.mapM fun d => asking (nameFor n r loaded.location d.specifier)
        return .ok (Rewrite.fill loaded.source ds names)

def downloading (r : Registry) (m : MappedModule) : Task World (Except InstallError MappedModule) := do
  match ← preparing n r m.module.entrypoint with
  | .error e => return .error e
  | .ok text =>
    let storage := m.module.storage
    match ← .once (World.onFiles fun t => t.makeDirectories storage.dir) with
    | .error e => return .error (.file storage.dir e)
    | .ok () =>
      let write : StateM FileTree (Except FileError Unit) := fun t =>
        match t.write storage.path text with
        | .ok t => (.ok (), t)
        | .error e => (.error e, t)
      match ← .once (World.onFiles write) with
      | .error e => return .error (.file storage.path e)
      | .ok () => return .ok m

/-- A loader that takes some rounds for what it requests. -/
def loader (r : Registry) (delay : Nat) : Loader Traffic RegistryError := fun path => do
  return ⟨delay, ← r.load n path⟩

/-! Stages -/

/-- How far the installation of a package is. -/
inductive Phase
  | choosing (task : Task World (Except InstallError (Registry × PackageModule)))
  | exploring (r : Registry) (root : PackageModule) (s : Exploration.State Traffic RegistryError)
  | describing (r : Registry) (root : PackageModule) (graph : DependencyGraph RegistryError)
      (tasks : List (Task World (Option (String × PackageModule))))
  | entering (p : ResolvedPackage) (tasks : List (Task World (Except InstallError MappedModule)))
  | writing (p : ResolvedPackage) (tasks : List (Task World (Except InstallError MappedModule)))
  | ended (outcome : Except InstallError InstalledPackage)

namespace Phase

def start (request : PackageRequest) : Phase := choosing (i.choosing n request)

def enter (p : ResolvedPackage) : Phase := entering p (p.modules.map fun m => .once (i.persist m))

def write (p : ResolvedPackage) : Phase := writing p ((distinctFiles p.modules).map (downloading n p.registry))

/-- What comes after the modules that have been found are known. -/
def afterDescribing (request : PackageRequest) (r : Registry) (root : PackageModule)
    (graph : DependencyGraph RegistryError) (described : List (Option (String × PackageModule))) : Phase :=
  enter i ⟨request, r, mappedModules root graph (described.filterMap id)⟩

def afterEntering (p : ResolvedPackage) (results : List (Except InstallError MappedModule)) : Phase :=
  match Pipeline.collect results with
  | .error e => ended (.error e)
  | .ok ms => write n { p with modules := ms }

def afterWriting (p : ResolvedPackage) (results : List (Except InstallError MappedModule)) : Phase :=
  ended ((Pipeline.collect results).map (installed p))

/-- A turn of the installation of a package.  If one of its modules is worked on, `item` tells which one;
what is requested for the graph is there after `delay` rounds. -/
def turn (request : PackageRequest) (item delay : Nat) (phase : Phase) (w : World) : Phase × World :=
  match phase with
  | choosing (.step change next) => (choosing (next w), change w)
  | choosing (.done (.error e)) => (ended (.error e), w)
  | choosing (.done (.ok (r, root))) => (exploring r root (Exploration.initial root.entrypoint w.traffic), w)
  | exploring r root s =>
    if s.agenda.isEmpty then
      match s.graph.failures.lookup root.entrypoint with
      | some e => (ended (.error (.resolve root.entrypoint e)), w)
      | none => (describing r root s.graph (s.graph.entrypoints.map (i.describing n r root)), w)
    else
      let s := Exploration.step (loader n r delay) { s with shared := w.traffic }
      (exploring r root s, { w with traffic := s.shared })
  | describing r root graph tasks =>
    match Task.results? tasks with
    | some described => (afterDescribing i request r root graph described, w)
    | none => ((describing r root graph (Task.turn tasks item w).1), (Task.turn tasks item w).2)
  | entering p tasks =>
    match Task.results? tasks with
    | some results => (afterEntering n p results, w)
    | none => (entering p (Task.turn tasks item w).1, (Task.turn tasks item w).2)
  | writing p tasks =>
    match Task.results? tasks with
    | some results => (afterWriting p results, w)
    | none => (writing p (Task.turn tasks item w).1, (Task.turn tasks item w).2)
  | ended outcome => (ended outcome, w)

def outcome? : Phase → Option (Except InstallError InstalledPackage)
  | ended outcome => some outcome
  | _ => none

end Phase

/-! Batches -/

/-- A turn of a package of a batch, by the number of its request. -/
structure Turn where
  package : Nat
  item : Nat
  delay : Nat

/-- Packages that are installed together. -/
structure Batch where
  packages : List (PackageRequest × Phase)
  world : World

namespace Batch

def start (requests : List PackageRequest) (w : World) : Batch :=
  ⟨requests.map fun request => (request, .start i n request), w⟩

def turn (b : Batch) (t : Turn) : Batch :=
  match b.packages[t.package]? with
  | none => b
  | some (request, phase) =>
    let (phase, w) := phase.turn i n request t.item t.delay b.world
    ⟨b.packages.set t.package (request, phase), w⟩

/-- Turns in any order. -/
def turns (b : Batch) (schedule : List Turn) : Batch := schedule.foldl (turn i n) b

/-- What has become of all packages, if none of them is still worked on. -/
def outcomes? (b : Batch) : Option (List (PackageRequest × Except InstallError InstalledPackage)) :=
  b.packages.mapM fun x => x.2.outcome?.map fun outcome => (x.1, outcome)

end Batch

end Installer

end WebModules
