import WebModules.Explanation
import WebModules.Registry.Backend
import WebModules.Registry.Client
import WebModules.Registry.Loaded
import WebModules.Version

/-!
Registries: what can be asked about a package, and how the answers are read.
-/

namespace WebModules

/-- Why a registry could not answer. -/
inductive RegistryError
  /-- The path could not be fetched. -/
  | unavailable (backend : Backend) (path : String) (error : FetchError)
  /-- What was served for the path is no module of a package. -/
  | malformed (backend : Backend) (path : String)
  /-- No registry has the package. -/
  | notFound (package : String)
  /-- What the package was resolved to is no version. -/
  | invalidVersion (backend : Backend) (name version : String)
  deriving DecidableEq, Repr, Inhabited

def RegistryError.message : RegistryError → String
  | unavailable b path e => b.name ++ ": cannot fetch " ++ path ++ ": " ++ e.message
  | malformed b path => b.name ++ ": malformed package response for " ++ path
  | notFound package => "package " ++ package ++ " not found in any registry"
  | invalidVersion b name version =>
    b.name ++ ": " ++ name ++ " resolved to invalid version `" ++ version ++ "`"

def RegistryError.explain (e : RegistryError) : Explanation := ⟨e.message, []⟩

structure Registry where
  backend : Backend
  client : Client
  deriving DecidableEq, Repr, Inhabited

namespace Registry

def ofBase (number : Nat) (backend : Backend) (base : String) : Except RegistryError Registry :=
  match Client.ofBase number base with
  | .ok client => .ok ⟨backend, client⟩
  | .error e => .error (.unavailable backend base e)

variable (r : Registry) (n : Network)

def name : String := r.backend.name

def entrypoint (package : String) (target version : Option String) : String :=
  r.backend.entrypoint package target version

def fetch (path : String) : StateM Traffic (Except RegistryError ServedModule) := do
  match ← r.client.fetch n path with
  | .ok m => return .ok m
  | .error e => return .error (.unavailable r.backend path e)

/-- Whether the registry has a package.  The first line of its answer tells. -/
def has (package : String) (target version : Option String) : StateM Traffic Bool := do
  match ← r.fetch n (r.entrypoint package target version) with
  | .ok m => return !(r.backend.failureMarkers.any fun mark => Text.occursIn mark.toList m.firstLine.toList)
  | .error _ => return false

/-- The text of the module at a path, and where it was served from. -/
def load (path : String) : StateM Traffic (Except RegistryError LoadedModule) := do
  match ← r.fetch n path with
  | .ok m => return .ok ⟨m.source, r.client.location m⟩
  | .error e => return .error e

def identify (path : String) : StateM Traffic (Except RegistryError ModuleIdentity) := do
  match ← r.fetch n path with
  | .error e => return .error e
  | .ok m =>
    match r.backend.identify? m.path with
    | some identity => return .ok identity
    | none => return .error (.malformed r.backend path)

/-- The version of a package that the registry serves for a request. -/
def version (package : String) (target version : Option String) :
    StateM Traffic (Except RegistryError String) := do
  match ← r.identify n (r.entrypoint package target version) with
  | .error e => return .error e
  | .ok identity =>
    match Version.parse? identity.version with
    | some _ => return .ok identity.version
    | none => return .error (.invalidVersion r.backend package identity.version)

end Registry

end WebModules
