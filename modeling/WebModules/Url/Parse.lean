import WebModules.Url.Basic

/-!
Reading URLs, alone or relative to another one.
-/

namespace WebModules.Url

def isSlash (c : Char) : Bool := c == '/' || c == '\\'

/-- Blanks at both ends and tabs and line breaks anywhere do not count. -/
def cleaned (cs : List Char) : List Char :=
  let isEdge (c : Char) : Bool := c.toNat ≤ 32
  let trimmed := ((cs.dropWhile isEdge).reverse.dropWhile isEdge).reverse
  trimmed.filter fun c => !(c == '\t' || c == '\n' || c == '\r')

/-- The scheme that a text starts with, in lower case, and what follows its colon. -/
def scheme? (cs : List Char) : Option (List Char × List Char) :=
  let isSchemeChar (c : Char) : Bool := c.isAlphanum || c == '+' || c == '-' || c == '.'
  let scheme := cs.takeWhile isSchemeChar
  if (scheme.head?.map Char.isAlpha).getD false then
    match cs.drop scheme.length with
    | ':' :: rest => some (scheme.map Char.toLower, rest)
    | _ => none
  else none

/-- Whether a segment is a letter and a colon or bar. -/
def isDriveLetter : List Char → Bool
  | [c, d] => c.isAlpha && (d == ':' || d == '|')
  | _ => false

def isNormalDriveLetter : List Char → Bool
  | [c, ':'] => c.isAlpha
  | _ => false

/-- Whether a text starts with a drive letter as a whole segment. -/
def startsWithDriveLetter : List Char → Bool
  | c :: d :: r =>
    isDriveLetter [c, d] && (match r.head? with
      | some e => isSlash e || e == '?' || e == '#'
      | none => true)
  | _ => false

/-- Whether a segment stands for the directory above. -/
def isDoubleDot (s : List Char) : Bool :=
  ["..", ".%2e", "%2e.", "%2e%2e"].any fun t => t.toList == s.map Char.toLower

/-- Whether a segment stands for the directory itself. -/
def isSingleDot (s : List Char) : Bool :=
  [".", "%2e"].any fun t => t.toList == s.map Char.toLower

/-- A path without its last segment; a drive letter stays. -/
def shortened (isFile : Bool) (segments : List (List Char)) : List (List Char) :=
  match segments with
  | [only] => if isFile && isNormalDriveLetter only then [only] else []
  | segments => segments.dropLast

/-- Adds the segments of a text to a path. -/
def addSegments (isFile : Bool) (path : List (List Char)) : List (List Char) → List (List Char)
  | [] => path
  | s :: more =>
    let s := percentEncode .path s
    let path :=
      if isDoubleDot s then
        let path := shortened isFile path
        if more.isEmpty then path ++ [[]] else path
      else if isSingleDot s then if more.isEmpty then path ++ [[]] else path
      else if isFile && path.isEmpty && isDriveLetter s then path ++ [s.take 1 ++ [':']]
      else path ++ [s]
    addSegments isFile path more

/-- Splits a text at the slashes that end a segment. -/
def splitSegments (special : Bool) (cs : List Char) : List (List Char) :=
  cs.splitOnP fun c => c == '/' || (special && c == '\\')

/-- The part of a text before its query or fragment, and the rest. -/
def splitPath (cs : List Char) : List Char × List Char :=
  let isPath (c : Char) : Bool := c != '?' && c != '#'
  (cs.takeWhile isPath, cs.dropWhile isPath)

/-- A path that a text adds to, where the text does not start with the slash before its first
segment.  Paths of files do not start with empty segments. -/
def extended (scheme : List Char) (path : List (List Char)) (cs : List Char) : Path :=
  let isFile := isFileScheme scheme
  let all := addSegments isFile path (splitSegments (isSpecialScheme scheme) cs)
  if isFile then
    let trimmed := all.dropWhile List.isEmpty
    .segments (if trimmed.isEmpty then [[]] else trimmed)
  else .segments all

/-- A URL with the query and fragment that the rest of its text gives. -/
def withRest (u : Url) (cs : List Char) : Url :=
  let part := if isSpecialScheme u.scheme then Part.specialQuery else .query
  let fragment (cs : List Char) : Option (List Char) :=
    match cs with
    | '#' :: r => some (percentEncode .fragment r)
    | _ => none
  match cs with
  | '?' :: r =>
    let query := r.takeWhile (· != '#')
    { u with query := some (percentEncode part query),
             fragment := fragment (r.dropWhile (· != '#')) }
  | cs => { u with query := none, fragment := fragment cs }

/-- Splits a text at the last place where a character stands. -/
def splitAtLast? (c : Char) (cs : List Char) : Option (List Char × List Char) :=
  if cs.contains c then
    let after := (cs.reverse.takeWhile (· != c)).reverse
    some (cs.take (cs.length - after.length - 1), after)
  else none

/-- The user information of an authority, encoded, without an empty password. -/
def userInfo (cs : List Char) : List Char :=
  let user := cs.takeWhile (· != ':')
  let password := (cs.drop user.length).drop 1
  percentEncode .userInfo user
    ++ if password.isEmpty then [] else ':' :: percentEncode .userInfo password

/-- The characters of a host up to the colon before its port, if there is one outside of
brackets. -/
def hostChars (bracket : Bool) : List Char → List Char
  | [] => []
  | c :: r =>
    if c = ':' ∧ !bracket then []
    else c :: hostChars (if c = '[' then true else if c = ']' then false else bracket) r

/-- A port up to a backslash, and what follows. -/
def parsePort (scheme : List Char) (cs : List Char) :
    Except UrlError (Option Nat × List Char) :=
  let digits := cs.takeWhile (· != '\\')
  let rest := cs.drop digits.length
  let n := (digits.map fun c => c.toNat - '0'.toNat).foldl (fun n d => n * 10 + d) 0
  if !digits.all Char.isDigit ∨ 65535 < n then .error .invalidPort
  else if digits.isEmpty ∨ some n = defaultPort? scheme then .ok (none, rest)
  else .ok (some n, rest)

/-- The path that a text after an authority stands for. -/
def firstPath (scheme : List Char) (path : List Char) : Path :=
  let special := isSpecialScheme scheme
  match path with
  | c :: r =>
    if c == '/' || (special && c == '\\') then extended scheme [] r else extended scheme [] path
  | [] => if special then .segments [[]] else .segments []

/-- A URL from its authority on. -/
def parseAuthority (scheme : List Char) (cs : List Char) : Except UrlError Url := do
  let special := isSpecialScheme scheme
  let ends (c : Char) : Bool := c == '/' || c == '?' || c == '#' || (special && c == '\\')
  let whole := cs.takeWhile fun c => !ends c
  let rest := cs.drop whole.length
  let (info, hostPort) ← match splitAtLast? '@' whole with
    | none => pure ([], whole)
    | some (info, hostPort) =>
      if info.isEmpty ∧ hostPort.isEmpty ∧ !rest.isEmpty then .error .emptyHost
      else pure (userInfo info, hostPort)
  let hostText := hostChars false hostPort
  let afterHost := hostPort.drop hostText.length
  if hostText.isEmpty ∧ (special ∨ !afterHost.isEmpty ∨ !info.isEmpty) then .error .emptyHost
  let host ← if special then Host.parse hostText else Host.parseOpaque hostText
  let (port, extra) ← match afterHost with
    | ':' :: port => parsePort scheme port
    | _ => pure (none, [])
  let (path, rest) := splitPath (extra ++ rest)
  return withRest ⟨scheme, some ⟨info, host, port⟩, firstPath scheme path, none, none⟩ rest

/-- A file of a host, after the two slashes before the host. -/
def parseFileHost (cs : List Char) : Except UrlError Url := do
  let scheme := "file".toList
  let hostText := cs.takeWhile fun c => !(isSlash c || c == '?' || c == '#')
  let local' (cs : List Char) : Url :=
    let (path, rest) := splitPath cs
    withRest ⟨scheme, some ⟨[], [], none⟩, extended scheme [] path, none, none⟩ rest
  if isDriveLetter hostText then return local' cs
  else if hostText.isEmpty then return local' cs
  else
    let host ← Host.parse hostText
    let after := cs.drop hostText.length
    if host = "localhost".toList then return local' after
    else
      let (path, rest) := splitPath after
      let path := extended scheme [] (path.drop 1)
      let startsWithDrive := match path with
        | .segments (s :: _) => isNormalDriveLetter s
        | _ => false
      let host := if startsWithDrive then [] else host
      return withRest ⟨scheme, some ⟨[], host, none⟩, path, none, none⟩ rest

/-- A file, relative to another one if there is one. -/
def parseFile (base : Option Url) (cs : List Char) : Except UrlError Url := do
  let scheme := "file".toList
  let start (path : List (List Char)) (host : List Char) (cs : List Char) : Url :=
    let (text, rest) := splitPath cs
    withRest ⟨scheme, some ⟨[], host, none⟩, extended scheme path text, none, none⟩ rest
  let baseHost := ((base.bind Url.authority).map Authority.host).getD []
  match cs with
  | c :: r =>
    if isSlash c then
      match r with
      | d :: s => if isSlash d then return ← parseFileHost s
      | [] => pure ()
      if startsWithDriveLetter r then return start [] [] r
      else
        match (base.map segments).bind List.head? with
        | some first =>
          if isNormalDriveLetter first then return start [first] [] r
          else return start [] baseHost r
        | none => return start [] baseHost r
    else
      match base with
      | none => return start [] [] cs
      | some b =>
        if c = '?' then return withRest b cs
        else if c = '#' then return { b with fragment := (withRest b cs).fragment }
        else if startsWithDriveLetter cs then return start [] [] cs
        else return start (shortened true b.segments) baseHost cs
  | [] =>
    match base with
    | none => return start [] [] []
    | some b => return { b with fragment := none }

/-- A URL relative to another one of the same scheme. -/
def parseRelative (base : Url) (cs : List Char) : Except UrlError Url := do
  match cs with
  | [] => return { base with fragment := none }
  | c :: r =>
    if c = '?' then return withRest base cs
    else if c = '#' then return { base with fragment := (withRest base cs).fragment }
    else if isSlash c then
      match cs with
      | '/' :: '/' :: rest => parseAuthority base.scheme rest
      | _ =>
        if (r.head?.map isSlash).getD false then
          parseAuthority base.scheme (cs.dropWhile isSlash)
        else
          let (path, rest) := splitPath r
          return withRest { base with path := extended base.scheme [] path } rest
    else
      let (path, rest) := splitPath cs
      return withRest
        { base with path := extended base.scheme base.segments.dropLast path } rest

/-- A URL after its scheme, which has no rules of its own. -/
def parseOther (scheme : List Char) (cs : List Char) : Except UrlError Url :=
  match cs with
  | '/' :: '/' :: r => parseAuthority scheme r
  | '/' :: r =>
    let (path, rest) := splitPath r
    .ok (withRest ⟨scheme, none, extended scheme [] path, none, none⟩ rest)
  | cs =>
    let (path, rest) := splitPath cs
    .ok (withRest ⟨scheme, none, .fixed (percentEncode .opaquePath path), none, none⟩ rest)

/-- A URL after its scheme. -/
def parseWithScheme (base : Option Url) (scheme : List Char) (cs : List Char) :
    Except UrlError Url :=
  if isFileScheme scheme then
    parseFile (base.filter fun b => isFileScheme b.scheme) cs
  else if isSpecialScheme scheme then
    let slashes := (cs.takeWhile isSlash).length
    match base with
    | some b =>
      if slashes < 2 ∧ b.scheme = scheme then parseRelative b cs
      else parseAuthority scheme (cs.drop slashes)
    | none => parseAuthority scheme (cs.drop slashes)
  else parseOther scheme cs

/-- Reads a URL, relative to another one if there is one. -/
def parseAgainst (base : Option Url) (text : String) : Except UrlError Url :=
  let cs := cleaned text.toList
  match scheme? cs with
  | some (scheme, rest) => parseWithScheme base scheme rest
  | none =>
    match base with
    | none => .error .noBase
    | some b =>
      if cs.head? = some '#' then .ok { b with fragment := (withRest b cs).fragment }
      else if b.isOpaque then .error .opaqueBase
      else if isFileScheme b.scheme then parseFile (some b) cs
      else parseRelative b cs

def parse (text : String) : Except UrlError Url := parseAgainst none text

/-- The URL that a text refers to where `base` is the URL of the document. -/
def join (base : Url) (text : String) : Except UrlError Url := parseAgainst (some base) text

end WebModules.Url
