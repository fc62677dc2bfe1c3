import WebModules.Explanation
import WebModules.FileTree
import WebModules.Json.Parse
import WebModules.Json.Print
import WebModules.Package.Request

/-!
The manifest of a project lists the packages that are to be installed, in one of its fields.  All
other fields are kept as they are.
-/

namespace WebModules

/-- Why a manifest could not be used. -/
inductive ManifestError
  | file (error : FileError)
  | json (error : Json.ParseError)
  /-- The manifest cannot list packages. -/
  | missingWebDependencies
  deriving DecidableEq, Repr, Inhabited

namespace ManifestError

def explain : ManifestError → Explanation
  | file e => .causedBy ("cannot read package.json: " ++ e.message) ⟨e.message, []⟩
  | json e => .causedBy ("invalid package.json: " ++ e.message) ⟨e.message, []⟩
  | missingWebDependencies => ⟨"webDependencies is missing in package.json", []⟩

end ManifestError

namespace Manifest

/-- The field that lists the packages. -/
def listName : String := "webDependencies"

def document (path : String) (t : FileTree) : Except ManifestError Json :=
  match t.read path with
  | .error e => .error (.file e)
  | .ok text => (Json.read text).mapError .json

def listed (document : Json) : List (String × Json) :=
  match document.get? listName with
  | some (.object fields) => fields
  | _ => []

/-- The request that an entry stands for, if its name is one of a package. -/
def requestOf? (entry : String × Json) : Option PackageRequest :=
  match PackageRequest.parse entry.1 with
  | .ok r => some { r with version := entry.2.asString?.bind PackageRequest.normalizeVersion }
  | .error _ => none

def requests (path : String) (t : FileTree) : Except ManifestError (List PackageRequest) := do
  return (listed (← document path t)).filterMap requestOf?

/-- The document that is changed: an empty one where there is no manifest. -/
def currentFields (path : String) (t : FileTree) :
    Except ManifestError (List (String × Json)) :=
  match document path t with
  | .ok (.object fields) => .ok fields
  | .ok _ => .error .missingWebDependencies
  | .error (.file .notFound) => .ok []
  | .error e => .error e

/-- Changes the entries of a manifest, which tells something about the change. -/
def modify {α : Type} (path : String)
    (change : List (String × Json) → List (String × Json) × α) :
    StateM FileTree (Except ManifestError α) := fun t =>
  match currentFields path t with
  | .error e => (.error e, t)
  | .ok fields =>
    let (entries, value) := change (listed (.object fields))
    let document := Json.object (Json.setField listName (.object entries) fields)
    match t.write path (document.pretty ++ "\n") with
    | .ok t => (.ok value, t)
    | .error e => (.error (.file e), t)

/-- The entries with one for a request. -/
def withRequest (entries : List (String × Json)) (r : PackageRequest) : List (String × Json) :=
  Json.setField r.key (.string (r.version.getD "latest")) entries

/-- Adds requests to a manifest, which is made if there is none. -/
def add (path : String) (rs : List PackageRequest) : StateM FileTree (Except ManifestError Unit) :=
  modify path fun entries => (rs.foldl withRequest entries, ())

/-- The entries without those of some requests, and their names. -/
def withoutRequests : List PackageRequest → List (String × Json) →
    List (String × Json) × List String
  | [], entries => (entries, [])
  | r :: rs, entries =>
    match Json.field? r.key entries with
    | none => withoutRequests rs entries
    | some _ =>
      let (entries, removed) := withoutRequests rs (entries.filter fun e => e.1 ≠ r.key)
      (entries, r.key :: removed)

/-- Removes the entries of requests, and tells which there were. -/
def remove (path : String) (rs : List PackageRequest) :
    StateM FileTree (Except ManifestError (List String)) :=
  modify path (withoutRequests rs)

end Manifest

end WebModules
