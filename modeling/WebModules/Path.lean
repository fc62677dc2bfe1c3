import WebModules.Text

/-!
Paths of files, as text.  Nothing is normalised when paths are joined; what a path means is given by
its components.
-/

namespace WebModules.Path

inductive Component
  | root
  /-- A dot at the start of a relative path. -/
  | current
  | parent
  | normal (name : String)
  deriving DecidableEq, Repr, Inhabited

def Component.text : Component → String
  | root => "/"
  | current => "."
  | parent => ".."
  | normal name => name

def isAbsolute (path : String) : Bool := path.toList.head? == some '/'

/-- A path followed by another one.  An absolute path stays by itself, and an empty one adds a slash
at the end. -/
def push (path other : String) : String :=
  if isAbsolute other then other
  else if path.isEmpty || path.toList.getLast? == some '/' then path ++ other
  else path ++ "/" ++ other

def pushAll (path : String) (others : List String) : String := others.foldl push path

/-- The components between slashes, without the empty ones and single dots. -/
def innerComponents (parts : List (List Char)) : List Component :=
  parts.filterMap fun part =>
    if part.isEmpty ∨ part = ['.'] then none
    else if part = ['.', '.'] then some .parent
    else some (.normal (String.ofList part))

def components (path : String) : List Component :=
  let parts := Text.split '/' path.toList
  let start : List Component :=
    if isAbsolute path then [.root] else if parts.head? = some ['.'] then [.current] else []
  start ++ innerComponents parts

/-- The components of a path after those of another one, if it starts with these. -/
def componentsAfter? (start path : String) : Option (List Component) :=
  let rec strip : List Component → List Component → Option (List Component)
    | [], cs => some cs
    | b :: bs, c :: cs => if b = c then strip bs cs else none
    | _ :: _, [] => none
  strip (components start) (components path)

def normalName? : Component → Option String
  | .normal name => some name
  | _ => none

/-- The last component of a path, if that is a name. -/
def fileName? (path : String) : Option String := (components path).getLast?.bind normalName?

/-- A name without what follows its last dot, unless that dot comes first. -/
def stemOfName (name : String) : String :=
  match Text.splitLast? '.' name.toList with
  | some (before, _) => if before.isEmpty then name else String.ofList before
  | none => name

/-- The last name of a path without its extension; a path that ends in no name is its own stem. -/
def stem (path : String) : String :=
  match fileName? path with
  | some name => stemOfName name
  | none => path

/-- What follows the last dot of a name, unless that dot comes first. -/
def extension? (name : String) : Option String :=
  match Text.splitLast? '.' name.toList with
  | some (before, after) => if before.isEmpty then none else some (String.ofList after)
  | none => none

/-- The characters of a path up to the end of its last component but one: without the last
component, the slashes around it and the dots that stand for nothing. -/
def parentChars (cs : List Char) : List Char :=
  /- Slashes and single dots at the end of a path that is not empty before them. -/
  let rec trimmed : Nat → List Char → List Char
    | 0, reversed => reversed
    | fuel + 1, reversed =>
      match reversed with
      | '/' :: c :: r => trimmed fuel (c :: r)
      | '.' :: '/' :: r => trimmed fuel ('/' :: r)
      | reversed => reversed
  let reversed := trimmed cs.length cs.reverse
  let rest := reversed.dropWhile (· != '/')
  (trimmed rest.length rest).reverse

/-- A path without its last component, if it has one that can be left out. -/
def parent? (path : String) : Option String :=
  match (components path).getLast? with
  | none | some .root => none
  | some _ => some (String.ofList (parentChars path.toList))

/-- Whether a path starts with another one, component by component. -/
def startsWith (start path : String) : Bool := (componentsAfter? start path).isSome

def same (p q : String) : Bool := components p == components q

end WebModules.Path
