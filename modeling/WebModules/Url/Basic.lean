import WebModules.Url.Host

/-!
URLs and their text.
-/

namespace WebModules

/-- The part of a URL that names a host.  The user information is kept as it is written before the
sign that ends it, and is empty where there is none. -/
structure Url.Authority where
  userInfo : List Char
  host : List Char
  port : Option Nat
  deriving DecidableEq, Repr, Inhabited

inductive Url.Path
  /-- A path that nothing can be relative to. -/
  | fixed (text : List Char)
  /-- Each segment follows a slash. -/
  | segments (all : List (List Char))
  deriving DecidableEq, Repr, Inhabited

structure Url where
  scheme : List Char
  authority : Option Url.Authority
  path : Url.Path
  query : Option (List Char)
  fragment : Option (List Char)
  deriving DecidableEq, Repr, Inhabited

namespace Url

/-- The schemes with rules of their own, and the ports they stand for. -/
def specialSchemes : List (String × Option Nat) :=
  [("http", some 80), ("https", some 443), ("ws", some 80), ("wss", some 443), ("ftp", some 21),
    ("file", none)]

def isSpecialScheme (scheme : List Char) : Bool :=
  specialSchemes.any fun s => s.1.toList == scheme

def isFileScheme (scheme : List Char) : Bool := scheme == "file".toList

def defaultPort? (scheme : List Char) : Option Nat :=
  (specialSchemes.find? fun s => s.1.toList == scheme).bind Prod.snd

namespace Authority

def chars (a : Authority) : List Char :=
  (if a.userInfo.isEmpty then [] else a.userInfo ++ ['@']) ++ a.host
    ++ match a.port with
      | some port => ':' :: Nat.toDigits 10 port
      | none => []

end Authority

namespace Path

def chars : Path → List Char
  | .fixed text => text
  | .segments all => all.flatMap ('/' :: ·)

end Path

/-- The text of a URL up to its query. -/
def charsToPath (u : Url) : List Char :=
  u.scheme ++ ':' ::
    match u.authority, u.path with
    | some authority, path => '/' :: '/' :: authority.chars ++ path.chars
    | none, .segments ([] :: s :: more) => '/' :: '.' :: (Path.segments ([] :: s :: more)).chars
    | none, path => path.chars

/-- The text of a URL without its fragment. -/
def charsToQuery (u : Url) : List Char :=
  u.charsToPath ++ match u.query with
    | some query => '?' :: query
    | none => []

def chars (u : Url) : List Char :=
  u.charsToQuery ++ match u.fragment with
    | some fragment => '#' :: fragment
    | none => []

def text (u : Url) : String := String.ofList u.chars

/-- The text of a URL as it is requested, without its fragment. -/
def requestText (u : Url) : String := String.ofList u.charsToQuery

def pathText (u : Url) : String := String.ofList u.path.chars

def isOpaque (u : Url) : Bool :=
  match u.path with
  | .fixed _ => true
  | .segments _ => false

/-- The path's segments; an opaque path has none. -/
def segments (u : Url) : List (List Char) :=
  match u.path with
  | .fixed _ => []
  | .segments all => all

/-- Where a document comes from, for the schemes that tell by scheme, host and port. -/
structure Origin where
  scheme : List Char
  host : List Char
  port : Nat
  deriving DecidableEq, Repr, Inhabited

/-- The origin of a URL.  A URL without one is of the origin of no other URL. -/
def origin? (u : Url) : Option Origin :=
  match u.authority, defaultPort? u.scheme with
  | some authority, some port => some ⟨u.scheme, authority.host, authority.port.getD port⟩
  | _, _ => none

def sameOrigin (u v : Url) : Bool := u.origin?.isSome && u.origin? == v.origin?

end Url

end WebModules
