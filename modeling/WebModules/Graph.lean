import WebModules.Dependency
import WebModules.Explanation
import WebModules.Registry.Loaded
import WebModules.Schedule.Timed
import WebModules.Specifier

/-!
The graph of the modules that can be reached from one of them.

A module is visited by loading it and then visiting everything that it depends on.  Loading may take
some rounds, and all visits that have begun go on together; within a round they get their turns in
the order of their places in the tree of visits, in which a visit stands before those that it has
begun and these stand in the order of the specifiers.  What has been visited is not visited again.
-/

namespace WebModules

open Script Schedule

/-- Why a module of a graph could not be visited. -/
inductive ResolveError (ε : Type)
  /-- The module is no module in its language. -/
  | syntaxError (entrypoint : String) (error : SyntaxError)
  /-- The module could not be loaded. -/
  | unavailable (error : ε)
  deriving DecidableEq, Repr, Inhabited

def ResolveError.explain {ε : Type} (explainCause : ε → Explanation) :
    ResolveError ε → Explanation
  | syntaxError entrypoint e => .causedBy (entrypoint ++ ": " ++ e.text) ⟨e.text, []⟩
  | unavailable e => .causedBy (explainCause e).message (explainCause e)

/-- What each module depends on, and why others could not be visited. -/
structure DependencyGraph (ε : Type) where
  /-- Modules with everything that they depend on, in the order in which they were found. -/
  edges : List (String × List String)
  failures : List (String × ResolveError ε)
  deriving DecidableEq, Repr, Inhabited

namespace DependencyGraph

variable {ε : Type}

def entrypoints (g : DependencyGraph ε) : List String := g.edges.map Prod.fst

def get? (g : DependencyGraph ε) (entrypoint : String) : Option (List String) :=
  g.edges.lookup entrypoint

def takeFailure (g : DependencyGraph ε) (entrypoint : String) :
    Option (ResolveError ε) × DependencyGraph ε :=
  (g.failures.lookup entrypoint,
    { g with failures := g.failures.eraseP fun f => f.1 == entrypoint })

end DependencyGraph

/-- Gives the module for an entrypoint, after some rounds. -/
abbrev Loader (σ ε : Type) := String → StateM σ (Timed (Except ε LoadedModule))

namespace Exploration

/-- What is to be done about an entrypoint. -/
inductive Duty (ε : Type)
  | visit (entrypoint : String)
  /-- The module has been loaded. -/
  | follow (entrypoint : String) (loaded : Except ε LoadedModule)
  deriving Repr, Inhabited

/-- A duty, the round that it is due in, and its place in the tree of visits. -/
structure Item (ε : Type) where
  round : Nat
  place : List Nat
  duty : Duty ε
  deriving Repr, Inhabited

def placeBefore : List Nat → List Nat → Bool
  | _, [] => false
  | [], _ :: _ => true
  | a :: as, b :: bs => a < b || (a == b && placeBefore as bs)

variable {σ ε : Type}

def Item.before (a b : Item ε) : Bool :=
  a.round < b.round || (a.round == b.round && placeBefore a.place b.place)

def schedule (item : Item ε) : List (Item ε) → List (Item ε)
  | [] => [item]
  | other :: agenda =>
    if item.before other then item :: other :: agenda else other :: schedule item agenda

structure State (σ ε : Type) where
  /-- The entrypoints that have been visited. -/
  seen : List String
  graph : DependencyGraph ε
  /-- What is to be done, in the order in which it is due. -/
  agenda : List (Item ε)
  shared : σ

/-- The entrypoints that a module depends on. -/
def childrenOf (m : LoadedModule) : Except SyntaxError (List String) := do
  return (← detect m.source).map (Specifier.join m.location)

/-- What a visit leads to once its module is there or cannot be had. -/
def outcome (entrypoint : String) (loaded : Except ε LoadedModule) :
    Except (ResolveError ε) (List String) :=
  match loaded with
  | .error e => .error (.unavailable e)
  | .ok m => (childrenOf m).mapError (.syntaxError entrypoint)

/-- The graph in which an entrypoint that was found depends on others. -/
def connect (g : DependencyGraph ε) (entrypoint : String) (children : List String) :
    DependencyGraph ε :=
  { g with edges := g.edges.map fun e => if e.1 = entrypoint then (entrypoint, children) else e }

/-- The graph in which an entrypoint that was found has failed. -/
def fail (g : DependencyGraph ε) (entrypoint : String) (error : ResolveError ε) :
    DependencyGraph ε :=
  ⟨g.edges.filter fun e => e.1 ≠ entrypoint, g.failures ++ [(entrypoint, error)]⟩

/-- Does what is due first. -/
def step (loader : Loader σ ε) (s : State σ ε) : State σ ε :=
  match s.agenda with
  | [] => s
  | ⟨round, place, .visit entrypoint⟩ :: agenda =>
    if s.seen.contains entrypoint then { s with agenda := agenda }
    else
      let (loaded, shared) := loader entrypoint s.shared
      let item : Item ε := ⟨round + loaded.delay, place, .follow entrypoint loaded.value⟩
      ⟨s.seen ++ [entrypoint], { s.graph with edges := s.graph.edges ++ [(entrypoint, [])] },
        schedule item agenda, shared⟩
  | ⟨round, place, .follow entrypoint loaded⟩ :: agenda =>
    match outcome entrypoint loaded with
    | .error e => { s with graph := fail s.graph entrypoint e, agenda := agenda }
    | .ok children =>
      let visits := children.zipIdx.map fun (child, index) =>
        (⟨round, place ++ [index], .visit child⟩ : Item ε)
      { s with
        graph := connect s.graph entrypoint children
        agenda := visits.foldl (fun agenda item => schedule item agenda) agenda }

/-- Does up to a number of things. -/
def run (loader : Loader σ ε) : Nat → State σ ε → State σ ε
  | 0, s => s
  | limit + 1, s => if s.agenda.isEmpty then s else run loader limit (step loader s)

def initial (root : String) (shared : σ) : State σ ε :=
  ⟨[], ⟨[], []⟩, [⟨0, [], .visit root⟩], shared⟩

def specifierCount (text : String) : Nat := ((detect text).toOption.getD []).length

/-- A number of steps that is enough where all modules that depend on anything have one of the given
texts, each of them in up to so many locations. -/
def limitFor (texts : List String) (locations : Nat := 1) : Nat :=
  let specifiers := texts.foldr (fun text count => specifierCount text + count) 0
  let entrypoints := specifiers * locations + 1
  entrypoints * entrypoints + entrypoints + 1

end Exploration

/-- The graph of everything that can be reached from a root within a number of steps. -/
def resolve {σ ε : Type} (limit : Nat) (loader : Loader σ ε) (root : String) :
    StateM σ (DependencyGraph ε) := fun shared =>
  let s := Exploration.run loader limit (Exploration.initial root shared)
  (s.graph, s.shared)

end WebModules
