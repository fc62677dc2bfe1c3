import WebModules.Text
import WebModules.Url.Parse

/-!
Specifiers: what a module is referred to by in another one.  A relative specifier is resolved
against the place that its module was served from.
-/

namespace WebModules.Specifier

/-- Whether a specifier is relative to the module that it stands in. -/
def isRelative (specifier : String) : Bool :=
  "./".toList.isPrefixOf specifier.toList || "../".toList.isPrefixOf specifier.toList
    || specifier == "." || specifier == ".."

/-- The part of a path up to its last slash. -/
def directory (path : List Char) : List Char :=
  match Text.splitLast? '/' path with
  | some (before, _) => before ++ ['/']
  | none => []

/-- The start of a path that stays as it is, and the rest. -/
def splitStart : List Char → List Char × List Char
  | '/' :: rest => (['/'], rest)
  | '.' :: '/' :: rest => (['.', '/'], rest)
  | rest => ([], rest)

/-- The segments of a path that has been followed from left to right: an empty segment and a dot
lead nowhere, two dots lead one step back if there is one.  The last segment comes first. -/
def follow (path : List (List Char)) (segment : List Char) : List (List Char) :=
  if segment.isEmpty ∨ segment = ['.'] then path
  else if segment = ['.', '.'] then path.drop 1
  else segment :: path

def namesDirectory (path : List Char) : Bool :=
  match (Text.split '/' path).getLast? with
  | some last => last = ['.'] || last = ['.', '.'] || (last.isEmpty && !path.isEmpty)
  | none => false

/-- A path without dots and empty segments. -/
def normalizeChars (path : List Char) : List Char :=
  let (start, rest) := splitStart path
  let segments := ((Text.split '/' rest).foldl follow []).reverse
  let joined := start ++ List.intercalate ['/'] segments
  let joined := if namesDirectory rest && !segments.isEmpty then joined ++ ['/'] else joined
  if joined.isEmpty then ['.', '/'] else joined

def normalize (path : String) : String := String.ofList (normalizeChars path.toList)

/-- What a specifier refers to in a module that was served from `referrer`: a URL if the referrer is
one, and else a path. -/
def join (referrer specifier : String) : String :=
  if !isRelative specifier then specifier
  else
    match (Url.parse referrer).bind fun base => base.join specifier with
    | .ok url => url.text
    | .error _ => String.ofList (normalizeChars (directory referrer.toList ++ specifier.toList))

end WebModules.Specifier
