/-!
Values that are not there at once.  Time passes in rounds: in each round, everything that was begun
and has not ended gets one turn, in the order in which it was begun.  A value that is there after
`delay` rounds is ready in its turn of that round, so among values begun together the one with the
smaller delay is ready first, and of two with the same delay the one begun first.
-/

namespace WebModules.Schedule

structure Timed (α : Type) where
  delay : Nat
  value : α
  deriving Repr, Inhabited

namespace Timed

variable {α : Type}

/-- A value that is there at once. -/
def now (a : α) : Timed α := ⟨0, a⟩

def map {β : Type} (f : α → β) (t : Timed α) : Timed β := ⟨t.delay, f t.value⟩

/-- The values begun together, in the order in which they are ready. -/
def byReadiness (ts : List (Timed α)) : List (Timed α) :=
  ts.mergeSort fun s t => s.delay ≤ t.delay

end Timed

/-- The first of the values begun together to be ready that satisfies a test. -/
def firstReady? {α β : Type} (test : α → Option β) (ts : List (Timed α)) : Option β :=
  (Timed.byReadiness ts).findSome? fun t => test t.value

end WebModules.Schedule
