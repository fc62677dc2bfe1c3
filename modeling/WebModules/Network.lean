import WebModules.Json.Value
import WebModules.Url.Parse

/-!
What a network answers to requests.  A network does not change while it is used: two requests for
one URL get the same answer.
-/

namespace WebModules

/-- An answer to a request. -/
structure Response where
  status : Nat
  body : String
  /-- The URL of the module that the answer stands for, relative to the URL that answered. -/
  importUrl : Option String
  /-- The URL that a redirect leads to, relative to the URL that answered. -/
  location : Option String
  deriving DecidableEq, Repr, Inhabited

namespace Response

/-- The answer to a request for what does not exist. -/
def notFound : Response := ⟨404, "Not Found", none, none⟩

end Response

/-- The answers to requests for URLs.  Where there is none the connection fails. -/
structure Network where
  answers : List (String × Option Response)
  /-- Whether requests for all other URLs are answered, if only by saying that nothing is there. -/
  online : Bool
  deriving DecidableEq, Repr, Inhabited

/-- A request for a URL, which has been answered unless the connection failed. -/
structure Exchange where
  url : String
  answered : Bool
  deriving DecidableEq, Repr, Inhabited

namespace Network

def unreachable : Network := ⟨[], false⟩

/-- The answer to a single request.  All requests but those by plain HTTP to its own port fail. -/
def respond (n : Network) (u : Url) : Option Response :=
  if u.scheme = "http".toList ∧ (u.authority.bind Url.Authority.port) = none then
    match Json.field? u.requestText n.answers with
    | some answer => answer
    | none => if n.online then some .notFound else none
  else none

def texts (n : Network) : List String := n.answers.filterMap fun a => a.2.map Response.body

/-- A number of locations that is enough for a text: the URL that it is served from, and its path,
which is a part of the URL. -/
def locations (n : Network) : Nat :=
  n.answers.foldr (fun a most => max ((a.1.length + 1) * (a.1.length + 1) + 1) most) 0

def isRedirect (status : Nat) : Bool := [301, 302, 303, 307, 308].contains status

/-- The most redirects that are followed for one request. -/
def maxRedirects : Nat := 10

/-- A request that follows up to a number of redirects: the requests that are made, and the answer
that is no redirect with the URL that gave it. -/
def follow (n : Network) : Nat → Url → List Exchange × Option (Url × Response)
  | redirects, u =>
    match n.respond u with
    | none => ([⟨u.requestText, false⟩], none)
    | some r =>
      let made : Exchange := ⟨u.requestText, true⟩
      if !isRedirect r.status then ([made], some (u, r))
      else
        match redirects, r.location.map u.join with
        | redirects + 1, some (.ok target) =>
          let (more, answer) := follow n redirects target
          (made :: more, answer)
        | _, _ => ([made], none)

/-- A request with all its redirects. -/
def request (n : Network) (u : Url) : List Exchange × Option (Url × Response) :=
  n.follow maxRedirects u

end Network

end WebModules
