import WebModules.Package.Layout

/-!
The kinds of registries: how each of them is asked for a package, how it says that it has none, and
what the path that a module is finally served from tells about the module.
-/

namespace WebModules

inductive Backend
  /-- Modules are served from a path with a version, a hash and a file. -/
  | pika
  /-- Modules are served from a path with a version and a file. -/
  | unpkg
  deriving DecidableEq, Repr, Inhabited

/-- What a served module is. -/
structure ModuleIdentity where
  name : String
  target : Option String
  version : String
  deriving DecidableEq, Repr, Inhabited

namespace ModuleIdentity

/-- The name that other modules import the module by. -/
def importName (m : ModuleIdentity) : String := WebModules.importName m.name m.target

end ModuleIdentity

namespace Backend

/-- The registries in the order in which they are tried. -/
def all : List Backend := [.pika, .unpkg]

def name : Backend → String
  | pika => "pika"
  | unpkg => "unpkg"

def ofName? (name : String) : Option Backend := all.find? fun b => b.name == name

def defaultBase : Backend → String
  | pika => "https://cdn.pika.dev/"
  | unpkg => "https://unpkg.com/"

/-- What the first line of an answer contains if there is no such package. -/
def failureMarkers : Backend → List String
  | pika => ["Not Found", "Error:"]
  | unpkg => ["Cannot find"]

/-- A text without any number of dots with slashes, and then of slashes, at its start. -/
def withoutDots : List Char → List Char
  | '.' :: '/' :: r => withoutDots r
  | cs => cs.dropWhile (· == '/')

/-- The path that a registry is asked for.  Without a version the latest one is meant. -/
def entrypoint (b : Backend) (name : String) (target version : Option String) : String :=
  let mark := match b with
    | pika => "@v"
    | unpkg => "@"
  let start := "./" ++ name ++ (match version with
    | some version => mark ++ version
    | none => "")
  match b, target with
  | _, some target => start ++ "/" ++ String.ofList (withoutDots target.toList)
  | pika, none => start ++ "/"
  | unpkg, none => start

/-- Splits off the name of a package, with its scope if it has one, up to the sign before the
version. -/
def splitName? (cs : List Char) : Option (List Char × List Char) := do
  let (scope, rest) ←
    if cs.head? = some '@' then do
      let (scope, rest) ← Text.splitFirst? '/' cs
      if scope.length < 2 then none else pure (scope ++ ['/'], rest)
    else pure ([], cs)
  let package := rest.takeWhile fun c => c != '/' && c != '@'
  match rest.drop package.length with
  | '@' :: after => if package.isEmpty then none else some (scope ++ package, after)
  | _ => none

/-- Splits off a segment up to a slash, or up to the end. -/
def splitSegment (cs : List Char) : List Char × Option (List Char) :=
  match Text.splitFirst? '/' cs with
  | some (segment, rest) => (segment, some rest)
  | none => (cs, none)

def identifyPika? (cs : List Char) : Option ModuleIdentity := do
  match cs with
  | '/' :: '-' :: '/' :: cs =>
    let (name, rest) ← splitName? cs
    match rest with
    | 'v' :: rest =>
      let (segment, rest) ← Text.splitFirst? '/' rest
      let (version, hash) ← Text.splitLast? '-' segment
      let (directories, target) := (Text.splitLast? '/' rest).getD ([], rest)
      if version.isEmpty ∨ hash.isEmpty ∨ target.isEmpty ∨ directories.contains '\n' then none
      else
        some ⟨String.ofList name, some (String.ofList target), String.ofList version⟩
    | _ => none
  | _ => none

def identifyUnpkg? (cs : List Char) : Option ModuleIdentity := do
  match cs with
  | '/' :: cs =>
    let (name, rest) ← splitName? cs
    let (version, target) := splitSegment rest
    if version.isEmpty ∨ (target.getD []).contains '\n' then none
    else
      let target := target.filter fun t => !t.isEmpty
      some ⟨String.ofList name, target.map String.ofList, String.ofList version⟩
  | _ => none

/-- What the path that a module is served from tells about the module. -/
def identify? (b : Backend) (path : String) : Option ModuleIdentity :=
  match b with
  | pika => identifyPika? path.toList
  | unpkg => identifyUnpkg? path.toList

end Backend

end WebModules
