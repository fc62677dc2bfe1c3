import WebModules.Text

/-!
Requests for packages, written as a name, a path within the package and a version.
-/

namespace WebModules

/-- A package that is asked for.  Without a version the latest one is meant. -/
structure PackageRequest where
  /-- The name, with its scope if it has one. -/
  name : String
  /-- A path within the package. -/
  target : Option String := none
  version : Option String := none
  deriving DecidableEq, Repr, Inhabited

/-- A text that is no request. -/
structure RequestError where
  input : String
  deriving DecidableEq, Repr, Inhabited

def RequestError.message (e : RequestError) : String :=
  "invalid package `" ++ e.input ++ "`: expected name[/target][@version]"

namespace PackageRequest

/-- The name of a request in a manifest. -/
def key (r : PackageRequest) : String :=
  match r.target with
  | some target => r.name ++ "/" ++ target
  | none => r.name

def text (r : PackageRequest) : String :=
  match r.version with
  | some version => r.key ++ "@" ++ version
  | none => r.key

/-- A version as it is asked for, if it is one other than the latest. -/
def versionOfChars (cs : List Char) : Option String :=
  let version := String.ofList (Text.trim Text.isWhiteSpace cs)
  if version = "" ∨ version = "*" ∨ version = "latest" then none else some version

def normalizeVersion (version : String) : Option String := versionOfChars version.toList

/-- Splits a request at the sign before its version, which is no first character. -/
def splitVersion (cs : List Char) : List Char × Option String :=
  match Text.splitLast? '@' cs with
  | some (before, after) => if before.isEmpty then (cs, none) else (before, versionOfChars after)
  | none => (cs, none)

/-- The name at the start of a request without its version, and the path that follows. -/
def splitName? (cs : List Char) : Option (List Char × Option (List Char)) :=
  if cs.head? = some '@' then
    match Text.splitFirst? '/' cs with
    | none => none
    | some (scope, rest) =>
      let (package, target) := match Text.splitFirst? '/' rest with
        | some (package, target) => (package, some target)
        | none => (rest, none)
      if scope.length < 2 ∨ package.isEmpty then none
      else some (scope ++ '/' :: package, target)
  else
    match Text.splitFirst? '/' cs with
    | some (name, target) => if name.isEmpty then none else some (name, some target)
    | none => if cs.isEmpty then none else some (cs, none)

/-- A path within a package without slashes around it, if anything else is left. -/
def targetOfChars (cs : List Char) : Option String :=
  let target := Text.trim (· == '/') cs
  if target.isEmpty then none else some (String.ofList target)

def parse (input : String) : Except RequestError PackageRequest :=
  let (spec, version) := splitVersion (Text.trim Text.isWhiteSpace input.toList)
  match splitName? spec with
  | none => .error ⟨input⟩
  | some (name, target) => .ok ⟨String.ofList name, target.bind targetOfChars, version⟩

end PackageRequest

end WebModules
