/-!
A lock that callers take one after the other, in the order in which they queue for it.

A caller is away for a number of turns, queues, enters once everyone who queued before it has left,
and then takes one step of its section in each turn.  Nothing is assumed about whose turn it is:
`State.turn` gives a turn to any caller, and `State.run` gives them turns round by round.
-/

namespace WebModules.Schedule

/-- A step changes what all callers share and what the section remembers. -/
abbrev Step (σ ℓ : Type) := ℓ → σ → ℓ × σ

/-- What a caller does while it holds the lock.  Others may get turns between two steps. -/
structure Section (σ ℓ : Type) where
  start : ℓ
  steps : List (Step σ ℓ)

namespace Section

variable {σ ℓ : Type}

/-- All steps of a section without a turn of anyone else. -/
def runAlone (work : Section σ ℓ) (shared : σ) : ℓ × σ :=
  work.steps.foldl (fun (memory, shared) step => step memory shared) (work.start, shared)

end Section

namespace Lock

inductive Phase (σ ℓ : Type)
  /-- Queues after a number of turns. -/
  | away (turns : Nat) (work : Section σ ℓ)
  | queued (work : Section σ ℓ)
  /-- Holds the lock, with these steps left. -/
  | inside (memory : ℓ) (rest : List (Step σ ℓ))
  | done (memory : ℓ)

/-- What a caller did, by its number. -/
inductive Event
  | queued (caller : Nat)
  | entered (caller : Nat)
  | left (caller : Nat)
  deriving DecidableEq, Repr, Inhabited

structure State (σ ℓ : Type) where
  callers : List (Phase σ ℓ)
  /-- The callers that have queued and not left; the first of them has the lock. -/
  queue : List Nat
  shared : σ
  /-- What has happened, the first event first. -/
  history : List Event

variable {σ ℓ : Type}

namespace State

/-- The callers before their first turns, each with the number of turns that it is away for. -/
def initial (shared : σ) (callers : List (Nat × Section σ ℓ)) : State σ ℓ :=
  ⟨callers.map fun c => .away c.1 c.2, [], shared, []⟩

def setPhase (s : State σ ℓ) (caller : Nat) (phase : Phase σ ℓ) : State σ ℓ :=
  { s with callers := s.callers.set caller phase }

def note (s : State σ ℓ) (event : Event) : State σ ℓ :=
  { s with history := s.history ++ [event] }

/-- The first caller of the queue leaves it. -/
def leave (s : State σ ℓ) (caller : Nat) (memory : ℓ) : State σ ℓ :=
  { s.setPhase caller (.done memory) with queue := s.queue.drop 1 }.note (.left caller)

/-- The caller that has the lock takes a step, and leaves if there is none after it. -/
def advance (s : State σ ℓ) (caller : Nat) (memory : ℓ) : List (Step σ ℓ) → State σ ℓ
  | [] => s.leave caller memory
  | step :: rest =>
    let (memory, shared) := step memory s.shared
    let s := { s with shared := shared }
    if rest.isEmpty then s.leave caller memory else s.setPhase caller (.inside memory rest)

def enter (s : State σ ℓ) (caller : Nat) (work : Section σ ℓ) : State σ ℓ :=
  (s.note (.entered caller)).advance caller work.start work.steps

def turn (s : State σ ℓ) (caller : Nat) : State σ ℓ :=
  match s.callers[caller]? with
  | some (.away (turns + 1) work) => s.setPhase caller (.away turns work)
  | some (.away 0 work) =>
    let free := s.queue.isEmpty
    let s := { s with queue := s.queue ++ [caller] }.note (.queued caller)
    if free then s.enter caller work else s.setPhase caller (.queued work)
  | some (.queued work) => if s.queue.head? = some caller then s.enter caller work else s
  | some (.inside memory rest) => s.advance caller memory rest
  | some (.done _) | none => s

def turns (s : State σ ℓ) (order : List Nat) : State σ ℓ := order.foldl turn s

def round (s : State σ ℓ) : State σ ℓ := s.turns (List.range s.callers.length)

def rounds : Nat → State σ ℓ → State σ ℓ
  | 0, s => s
  | n + 1, s => rounds n s.round

/-- The number of turns that a caller needs at most, waiting apart. -/
def need : Phase σ ℓ → Nat
  | .away turns work => turns + 2 + work.steps.length
  | .queued work => 1 + work.steps.length
  | .inside _ rest => 1 + rest.length
  | .done _ => 0

/-- Rounds until every caller is done.  In each round one of them at least gets on. -/
def run (s : State σ ℓ) : State σ ℓ :=
  rounds (s.callers.foldr (fun caller total => need caller + total) 0) s

/-- What the sections that are done remember. -/
def results (s : State σ ℓ) : List ℓ :=
  s.callers.filterMap fun
    | .done memory => some memory
    | _ => none

end State

end Lock

end WebModules.Schedule
