import WebModules.ImportMap.File
import WebModules.Proofs.Schedule.Lock

/-!
Changes of an import map at the same time come to what they would come to one after the other.
-/

namespace WebModules.ImportMap

open Schedule

variable {α β : Type}

/-! What is told about a change is only passed on once the document has been read -/

theorem directoryStep_map (path : String) (g : α → β) (draft : Draft α) (t : FileTree) :
    directoryStep path (draft.map (Prod.map id g)) t =
      (directoryStep path draft t).map (·.map (Prod.map id g)) id := by
  cases draft with
  | error e => rfl
  | ok written =>
      cases hp : Path.parent? path with
      | none => simp [directoryStep, hp, Except.map]
      | some directory =>
          rcases hm : t.makeDirectories directory with ⟨made | made, t'⟩ <;>
            simp [directoryStep, hp, hm, Except.map]

theorem writeStep_map (path : String) (g : α → β) (draft : Draft α) (t : FileTree) :
    writeStep path (draft.map (Prod.map id g)) t =
      (writeStep path draft t).map (·.map (Prod.map id g)) id := by
  cases draft with
  | error e => rfl
  | ok written =>
      obtain ⟨document, value⟩ := written
      cases hw : t.write path (document.pretty ++ "\n") <;> simp [writeStep, Except.map, hw]

theorem answer_map (g : α → β) (draft : Draft α) : answer (draft.map (Prod.map id g)) = (answer draft).map g := by
  cases draft <;> rfl

theorem perform_change_map (path : String) (g : α → β) (edit : Json → Json × α) (t : FileTree) :
    perform (change path fun document => (edit document).map id g) t =
      (perform (change path edit) t).map (·.map g) id := by
  have hread : readStep path (fun document => (edit document).map id g) (.ok ((edit (.object [])).map id g)) t =
      (readStep path edit (.ok (edit (.object []))) t).map (·.map (Prod.map id g)) id := rfl
  simp only [perform, change, Section.runAlone, List.foldl_cons, List.foldl_nil, hread, Prod.map_fst,
    Prod.map_snd, directoryStep_map, writeStep_map, id_eq, answer_map, Prod.map_apply]

/-- A call that changes the map in a file. -/
inductive Call
  | persist (m : ImportMap)
  | removeDependency (name owner : String)

namespace Call

/-- The document after a call, with what the call tells. -/
def edit : Call → Json → Json × Option Removal
  | .persist m, document => (m.persistIn document, none)
  | .removeDependency name owner, document => (removeIn name owner document).map id some

/-- What a call does while it holds the lock. -/
def work (path : String) (call : Call) : Section FileTree (Draft (Option Removal)) := change path call.edit

/-- A call that is the only one. -/
def perform (path : String) : Call → StateM FileTree (Except ImportMapError (Option Removal))
  | .persist m => fun t => (ImportMap.persist path m t).map (·.map fun () => none) id
  | .removeDependency name owner => fun t => (ImportMap.removeDependency path name owner t).map (·.map some) id

theorem perform_work (path : String) (call : Call) (t : FileTree) :
    ImportMap.perform (call.work path) t = call.perform path t := by
  cases call with
  | persist m => exact perform_change_map path (fun () => none) (fun document => (m.persistIn document, ())) t
  | removeDependency name owner => exact perform_change_map path some (removeIn name owner) t

/-- Calls one after the other tell what there is to tell about their work. -/
theorem mapM_perform (path : String) (calls : List Call) (callers : List Nat) (t : FileTree) :
    (callers.filterMap (calls[·]?)).mapM (perform path) t =
      Prod.map (List.map answer) id (Lock.serially (calls.map (work path)) callers t) := by
  have hworks : callers.filterMap ((calls.map (work path))[·]?) =
      (callers.filterMap (calls[·]?)).map (work path) := by
    simp only [List.map_filterMap, List.getElem?_map]
  rw [Lock.serially, hworks]
  generalize callers.filterMap (calls[·]?) = calls
  induction calls generalizing t with
  | nil => rfl
  | cons call calls ih =>
      have hfirst : call.perform path t = Prod.map answer id ((call.work path).runAlone t) :=
        (perform_work path call t).symm
      rw [List.map_cons, List.mapM_cons, List.mapM_cons]
      simp only [bind, StateT.bind, hfirst, ih]
      rfl

end Call

/-- Calls at the same time, each after a number of turns, before any of them has had a turn. -/
def atOnce (path : String) (calls : List (Nat × Call)) (t : FileTree) : Lock.State FileTree (Draft (Option Removal)) :=
  .initial t (calls.map fun call => (call.1, call.2.work path))

/-- Whatever turns they get, enough rounds of turns bring calls to their ends, and what each of them
answers and what the files are then is what it would be if they were made one after the other in the
order in which they have queued. -/
theorem calls_serial (path : String) (calls : List (Nat × Call)) (t : FileTree) (turns : List Nat) :
    let s := (atOnce path calls t).turns turns
    (∃ enough, ∀ rounds : List (List Nat), enough ≤ rounds.length →
        (∀ round ∈ rounds, ∀ caller < calls.length, caller ∈ round) → (s.turns rounds.flatten).finished) ∧
      (s.finished → s.arrivals.Perm (List.range calls.length) ∧ s.results.length = calls.length ∧
        (s.arrivals.filterMap ((calls.map Prod.snd)[·]?)).mapM (Call.perform path) t =
          (s.arrivals.filterMap ((s.results.map answer)[·]?), s.shared)) := by
  intro s
  have hserving : Lock.Serving ((calls.map Prod.snd).map (Call.work path)) t s := by
    have h := (Lock.Serving.initial t (calls.map fun call => (call.1, call.2.work path))).turns turns
    rw [List.map_map] at h ⊢
    exact h
  refine ⟨⟨s.remaining, fun rounds hlength hall => ?_⟩, fun hf => ⟨?_, ?_, ?_⟩⟩
  · exact hserving.finished_of_rounds (by simpa using hall) hlength
  · simpa using hserving.arrivals_perm hf
  · have hlength := hserving.length
    rw [Lock.Serving.callers_eq hf] at hlength
    simpa using hlength
  · rw [Call.mapM_perform, hserving.serially_eq hf]
    simp only [Prod.map_apply, List.map_filterMap, List.getElem?_map, id_eq]

/-- A map in which one name keeps the scope of another. -/
def busyTree : FileTree :=
  ⟨[(["import-map.json"], .file
    ("\x7b\"imports\":\x7b\"a\":\"/w/a/1/a.js\"\x7d,\"scopes\":\x7b" ++
      "\"/w/a/1/\":\x7b\"b\":\"/w/b/1/b.js\"\x7d\x7d\x7d"))]⟩

def busyCalls : List (Nat × Call) :=
  [(1, .persist ⟨.single "b" "/w/b/1/b.js", .empty⟩), (0, .removeDependency "a" "/w/a/1/"),
    (0, .persist ⟨.single "c" "/w/c/1/c.js", .empty⟩)]

/-- The second caller is inside when the first and the third queue, and the third queues before the first. -/
def busyTurns : List Nat := [1, 2, 0, 0, 2, 1, 1, 0, 2, 2, 2, 0, 0, 0]

theorem calls_serial_busy :
    let s := (atOnce "/import-map.json" busyCalls busyTree).turns busyTurns
    s.finished ∧ s.arrivals = [1, 2, 0] ∧
      ([1, 2, 0].filterMap ((busyCalls.map Prod.snd)[·]?)).mapM (Call.perform "/import-map.json") busyTree =
        ([1, 2, 0].filterMap ((s.results.map answer)[·]?), s.shared) := by
  intro s
  have hrun : s.finished ∧ s.arrivals = [1, 2, 0] := by decide +kernel
  have hserial := (calls_serial "/import-map.json" busyCalls busyTree busyTurns).2 hrun.1
  exact ⟨hrun.1, hrun.2, hrun.2 ▸ hserial.2.2⟩

end WebModules.ImportMap
