import WebModules.Explanation
import WebModules.FileTree
import WebModules.ImportMap.Removal
import WebModules.Json.Print
import WebModules.Schedule.Lock

/-!
The import map of a project as a file.  It is changed by reading the document, changing it and
writing it back while no one else changes it; fields that are not part of the map are kept.
-/

namespace WebModules

open Schedule

/-- Why an import map could not be written. -/
structure ImportMapError where
  path : String
  error : FileError
  deriving DecidableEq, Repr, Inhabited

def ImportMapError.explain (e : ImportMapError) : Explanation :=
  .causedBy (e.path ++ ": " ++ e.error.message) ⟨e.error.message, []⟩

namespace ImportMap

/-- The document in a file, or an empty object where there is none. -/
def documentIn (path : String) (t : FileTree) : Json :=
  match t.read path with
  | .ok text => (Json.read text).toOption.getD (.object [])
  | .error _ => .object []

/-- The map in a document, or an empty map where there is none. -/
def ofDocument (document : Json) : ImportMap := (ofJson? document).getD .empty

def read (path : String) (t : FileTree) : ImportMap := ofDocument (documentIn path t)

/-! Changes -/

def persistIn (m : ImportMap) (document : Json) : Json :=
  (if document.isObject then document else .object []).merge m.toJson

/-- The document with the map that it holds replaced. -/
def replaceIn (m : ImportMap) : Json → Json
  | .object fields =>
    .object (Json.setField "scopes" (scopesJson m.scopes)
      (Json.setField "imports" (importsJson m.imports) fields))
  | _ => m.toJson

/-- The document without a name and the scopes that only it needs. -/
def removeIn (name owner : String) (document : Json) : Json × Removal :=
  let (left, removal) := (ofDocument document).remove name owner
  (left.replaceIn document, removal)

/-- What a change has come to: the document to be written with what is told about it, or why it
could not be written. -/
abbrev Draft (α : Type) := Except ImportMapError (Json × α)

variable {α : Type}

def readStep (path : String) (change : Json → Json × α) : Step FileTree (Draft α) := fun _ t =>
  (.ok (change (documentIn path t)), t)

def directoryStep (path : String) : Step FileTree (Draft α) := fun draft t =>
  match draft, Path.parent? path with
  | .ok written, some directory =>
    match t.makeDirectories directory with
    | (.ok (), t) => (.ok written, t)
    | (.error e, t) => (.error ⟨path, e⟩, t)
  | draft, _ => (draft, t)

/-- Writes the document with a line break after it. -/
def writeStep (path : String) : Step FileTree (Draft α) := fun draft t =>
  match draft with
  | .ok (document, value) =>
    match t.write path (document.pretty ++ "\n") with
    | .ok t => (.ok (document, value), t)
    | .error e => (.error ⟨path, e⟩, t)
  | .error e => (.error e, t)

/-- A change of the document in a file. -/
def change (path : String) (change : Json → Json × α) : Section FileTree (Draft α) :=
  ⟨.ok (change (.object [])), [readStep path change, directoryStep path, writeStep path]⟩

def answer (draft : Draft α) : Except ImportMapError α := draft.map Prod.snd

/-- A change that no one else interrupts. -/
def perform (work : Section FileTree (Draft α)) :
    StateM FileTree (Except ImportMapError α) := fun t =>
  let (draft, t) := work.runAlone t
  (answer draft, t)

/-- Merges a map into the one in a file. -/
def persistence (path : String) (m : ImportMap) : Section FileTree (Draft Unit) :=
  change path fun document => (m.persistIn document, ())

/-- Removes a name from the map in a file. -/
def removal (path name owner : String) : Section FileTree (Draft Removal) :=
  change path (removeIn name owner)

def persist (path : String) (m : ImportMap) : StateM FileTree (Except ImportMapError Unit) :=
  perform (m.persistence path)

/-- Merges maps into the one in a file at the same time. -/
def persistAll (path : String) (ms : List ImportMap) :
    StateM FileTree (List (Except ImportMapError Unit)) := fun t =>
  let s := (Lock.State.initial t (ms.map fun m => (0, persistence path m))).run
  (s.results.map answer, s.shared)

def removeDependency (path name owner : String) :
    StateM FileTree (Except ImportMapError Removal) :=
  perform (removal path name owner)

end ImportMap

end WebModules
