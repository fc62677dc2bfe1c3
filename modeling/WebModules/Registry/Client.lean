import WebModules.Network
import WebModules.Text

/-!
Clients fetch modules for paths that are relative to a base URL.  A client keeps what it has fetched
for each URL and does not fetch it again; what could not be fetched is tried again.
-/

namespace WebModules

/-- A module as it was served. -/
structure ServedModule where
  source : String
  /-- The URL that the module was finally served from. -/
  url : String
  /-- The path of that URL. -/
  path : String
  status : Nat
  deriving DecidableEq, Repr, Inhabited

def ServedModule.firstLine (m : ServedModule) : String := String.ofList (Text.firstLine m.source.toList)

/-- Why a module could not be fetched. -/
inductive FetchError
  | invalidUrl (input : String) (error : Url.UrlError)
  /-- The connection failed, or there were too many redirects. -/
  | unreachable (url : String)
  deriving DecidableEq, Repr, Inhabited

def FetchError.message : FetchError → String
  | invalidUrl input e => "invalid URL `" ++ input ++ "`: " ++ e.message
  | unreachable url => "HTTP error fetching " ++ url ++ ": no answer"

/-- What clients have kept, and all requests that have been made, the first one first. -/
structure Traffic where
  /-- The modules that clients have fetched for URLs. -/
  kept : List ((Nat × Url) × ServedModule)
  exchanges : List Exchange
  deriving DecidableEq, Repr, Inhabited

namespace Traffic

def empty : Traffic := ⟨[], []⟩

/-- The number of requests for a URL that have been answered. -/
def hits (t : Traffic) (url : String) : Nat := t.exchanges.count ⟨url, true⟩

end Traffic

/-- A client for a base URL.  Its number tells it from other clients of the same base. -/
structure Client where
  number : Nat
  base : Url
  deriving DecidableEq, Repr, Inhabited

namespace Client

/-- A client for a base, which is taken as a directory. -/
def ofBase (number : Nat) (base : String) : Except FetchError Client :=
  match Url.parse (if base.endsWith "/" then base else base ++ "/") with
  | .ok url => .ok ⟨number, url⟩
  | .error e => .error (.invalidUrl base e)

def urlFor (c : Client) (path : String) : Except FetchError Url :=
  match c.base.join path with
  | .ok url => .ok url
  | .error e => .error (.invalidUrl path e)

/-- Where a module was served from, as a path for the client: the path of its URL if that is of the
base's origin, and else the URL. -/
def location (c : Client) (m : ServedModule) : String :=
  match Url.parse m.url with
  | .ok url => if url.sameOrigin c.base then m.path else m.url
  | .error _ => m.url

def served (answer : Url × Response) : ServedModule :=
  ⟨answer.2.body, answer.1.requestText, answer.1.pathText, answer.2.status⟩

/-- Requests a module.  If the answer stands for a module at another URL, that one is requested. -/
def requestModule (n : Network) (u : Url) : List Exchange × Except FetchError ServedModule :=
  match n.request u with
  | (made, none) => (made, .error (.unreachable u.text))
  | (made, some (final, response)) =>
    match response.importUrl with
    | none => (made, .ok (served (final, response)))
    | some importUrl =>
      match final.join importUrl with
      | .error e => (made, .error (.invalidUrl importUrl e))
      | .ok next =>
        match n.request next with
        | (more, none) => (made ++ more, .error (.unreachable next.text))
        | (more, some answer) => (made ++ more, .ok (served answer))

/-- Fetches the module at a path, unless the client has kept it. -/
def fetch (c : Client) (n : Network) (path : String) :
    StateM Traffic (Except FetchError ServedModule) := fun traffic =>
  match c.urlFor path with
  | .error e => (.error e, traffic)
  | .ok u =>
    let key := (c.number, u)
    match traffic.kept.lookup key with
    | some m => (.ok m, traffic)
    | none =>
      let (made, answer) := requestModule n u
      let kept := match answer with
        | .ok m => (key, m) :: traffic.kept
        | .error _ => traffic.kept
      (answer, ⟨kept, traffic.exchanges ++ made⟩)

end Client

end WebModules
