import WebModules.Schedule.Timed

/-!
Stages that items pass through one after the other.  Within a stage all items are worked on
together, and none enters the next stage before all have come to the end of this one.  The items
keep their order, whichever is ready first; if some fail, the first of them in that order counts,
after the work on the others has ended too.
-/

namespace WebModules.Schedule

/-- Work that is done when its time has come, on what all items share. -/
abbrev Work (σ ε α : Type) := Timed (StateM σ (Except ε α))

namespace Work

variable {σ ε α : Type}

/-- Work that is done at once. -/
def now (work : StateM σ (Except ε α)) : Work σ ε α := Timed.now work

end Work

namespace Pipeline

variable {σ ε α β : Type}

/-- The work on all items, in the order in which it becomes ready: the results with the places of
their items. -/
def inOrder : List (Timed (StateM σ (Except ε β) × Nat)) → StateM σ (List (Nat × Except ε β))
  | [] => return []
  | t :: ts => do
    let result ← t.value.1
    let results ← inOrder ts
    return (t.value.2, result) :: results

/-- The results of the work on all items, in the order of the items. -/
def settle (work : α → Work σ ε β) (items : List α) : StateM σ (List (Except ε β)) := do
  let begun := items.zipIdx.map fun (item, place) => (work item).map fun w => (w, place)
  let results ← inOrder (Timed.byReadiness begun)
  return (List.range items.length).filterMap fun place => results.lookup place

/-- All values, or the first failure. -/
def collect : List (Except ε β) → Except ε (List β)
  | [] => .ok []
  | .error e :: _ => .error e
  | .ok b :: results => (collect results).map (b :: ·)

def map (work : α → Work σ ε β) (items : List α) : StateM σ (Except ε (List β)) := do
  return collect (← settle work items)

/-- Turns each item into any number of others. -/
def flatMap (work : α → Work σ ε (List β)) (items : List α) : StateM σ (Except ε (List β)) := do
  return (← map work items).map List.flatten

/-- Keeps the items that satisfy a test, which is asked for one after the other. -/
def filter (test : α → StateM σ Bool) : List α → StateM σ (List α)
  | [] => return []
  | item :: items => do
    let keep ← test item
    let kept ← filter test items
    return if keep then item :: kept else kept

def inspect (look : α → StateM σ Unit) : List α → StateM σ Unit
  | [] => return ()
  | item :: items => do
    look item
    inspect look items

/-- A stage for items that stay of one kind. -/
inductive Stage (σ ε α : Type)
  | map (work : α → Work σ ε α)
  | flatMap (work : α → Work σ ε (List α))
  | filter (test : α → StateM σ Bool)
  | inspect (look : α → StateM σ Unit)

namespace Stage

def run (items : List α) : Stage σ ε α → StateM σ (Except ε (List α))
  | map work => Pipeline.map work items
  | flatMap work => Pipeline.flatMap work items
  | filter test => do return .ok (← Pipeline.filter test items)
  | inspect look => do
    Pipeline.inspect look items
    return .ok items

/-- Stages one after the other, up to the first that fails. -/
def runAll (items : List α) : List (Stage σ ε α) → StateM σ (Except ε (List α))
  | [] => return .ok items
  | stage :: stages => do
    match ← stage.run items with
    | .ok items => runAll items stages
    | .error e => return .error e

end Stage

end Pipeline

end WebModules.Schedule
