import WebModules.Dictionary
import WebModules.Json.Parse
import WebModules.Package.Module

/-!
Import maps: which URL paths the names stand for that modules are imported by, for all modules and
for the modules of single directories.
-/

namespace WebModules

/-- The paths that names stand for. -/
abbrev Imports := Dictionary String

structure ImportMap where
  imports : Imports
  /-- The imports of the modules in a directory, which come before those of all modules. -/
  scopes : Dictionary Imports
  deriving DecidableEq, Repr

namespace ImportMap

def empty : ImportMap := ⟨.empty, .empty⟩

instance : Inhabited ImportMap := ⟨empty⟩

/-- The map of a single module. -/
def fragment (m : MappedModule) : ImportMap :=
  let entry := Dictionary.single m.module.importName m.module.storage.relativePath
  match m.importer with
  | none => ⟨entry, .empty⟩
  | some importer => ⟨.empty, .single importer.storage.relativeDir entry⟩

/-- All paths that names stand for, as often as they do. -/
def targets (m : ImportMap) : List String :=
  m.imports.values ++ m.scopes.values.flatMap Dictionary.values

/-- The paths that names stand for, in their order. -/
def paths (m : ImportMap) : List String := sortedSet m.targets

/-! Documents -/

def importsJson (imports : Imports) : Json :=
  .object (imports.entries.map fun e => (e.1, .string e.2))

def scopesJson (scopes : Dictionary Imports) : Json :=
  .object (scopes.entries.map fun e => (e.1, importsJson e.2))

def toJson (m : ImportMap) : Json :=
  .object [("imports", importsJson m.imports), ("scopes", scopesJson m.scopes)]

/-- The values of an object's fields, if each of them can be read. -/
def dictionary? {α : Type} (value? : Json → Option α) : Json → Option (Dictionary α)
  | .object fields => do
    return .ofList (← fields.mapM fun field => do return (field.1, ← value? field.2))
  | _ => none

def imports? (j : Json) : Option Imports := dictionary? Json.asString? j

def scopes? (j : Json) : Option (Dictionary Imports) := dictionary? imports? j

/-- A part of a document that may be missing. -/
def part? {α : Type} (value? : Json → Option (Dictionary α)) : List Json → Option (Dictionary α)
  | [] => some .empty
  | [j] => value? j
  | _ => none

def fieldsNamed (name : String) (fields : List (String × Json)) : List Json :=
  (fields.filter fun field => field.1 = name).map Prod.snd

/-- The map that a document holds: an object, whose other fields do not matter, or an array of
the imports and the scopes. -/
def ofJson? : Json → Option ImportMap
  | .object fields => do
    return ⟨← part? imports? (fieldsNamed "imports" fields),
      ← part? scopes? (fieldsNamed "scopes" fields)⟩
  | .array items =>
    if items.length ≤ 2 then do
      return ⟨← part? imports? (items.take 1), ← part? scopes? (items.drop 1)⟩
    else none
  | _ => none

/-- Reads a document, taking fields that do not matter leniently. -/
def readDocument (text : List Char) : Except Json.Failure Json := do
  let start := (⟨text, 0⟩ : Json.Input).skipBlanks
  let value (name : String) : Json.Input → Except Json.Failure (Json × Json.Input) :=
    Json.readValue (name ≠ "imports" ∧ name ≠ "scopes") Json.maxDepth
  let (j, after) ← match start.rest with
    | '\x7b' :: _ => do
      let (fields, after) ← Json.readFields false value (start.rest.length + 1) true start.next
      pure (Json.object fields, after)
    | _ => Json.readValue false Json.maxDepth start
  Json.readEnd after
  return j

/-- The map that a text is, if it is one. -/
def parse? (text : String) : Option ImportMap :=
  (readDocument text.toList).toOption.bind ofJson?

end ImportMap

end WebModules
