import Mathlib.Data.Set.Finite.Basic
import WebModules.Proofs.Basic
import WebModules.Proofs.Graph.Exploration

/-!
What the graph of a root is: whatever rounds the loader takes, everything that can be reached is
loaded once and stands either in the graph or among its failures.
-/

namespace WebModules

open Script Exploration

variable {σ τ ε : Type}

/-- A loader that also lists what it has been asked for. -/
def Loader.logged (loader : Loader σ ε) : Loader (List String × σ) ε := fun e s =>
  ((loader e s.2).1, s.1 ++ [e], (loader e s.2).2)

/-- Everything that is loaded for the graph of a root, in order. -/
def loads (limit : Nat) (loader : Loader σ ε) (root : String) (shared : σ) : List String :=
  (resolve limit loader.logged root ([], shared)).2.1

/-- The graph holds what can be reached and read, each module with everything that it refers to, in
order and as often as it does; what cannot be loaded or read is a failure.  Each of them was loaded
once, and nothing else. -/
structure Settled (answer : String → Except ε LoadedModule) (root : String) (loaded : List String)
    (g : DependencyGraph ε) : Prop where
  loaded_nodup : loaded.Nodup
  mem_loaded : ∀ e, e ∈ loaded ↔ Reachable answer root e
  keys_nodup : g.entrypoints.Nodup
  mem_edges : ∀ e children, (e, children) ∈ g.edges ↔ Reachable answer root e ∧
    ∃ m specifiers, answer e = .ok m ∧ detect m.source = .ok specifiers ∧
      children = specifiers.map (Specifier.join m.location)
  failures_nodup : (g.failures.map Prod.fst).Nodup
  mem_failures : ∀ e error, (e, error) ∈ g.failures ↔ Reachable answer root e ∧
    ((∃ x, answer e = .error x ∧ error = .unavailable x) ∨
      ∃ m x, answer e = .ok m ∧ detect m.source = .error x ∧ error = .syntaxError e x)

variable {answer : String → Except ε LoadedModule} {root : String}

theorem Exploration.Invariant.settled {v : View ε} (h : Invariant answer root v)
    (hd : v.duties = []) : Settled answer root v.seen v.graph := by
  refine ⟨h.seen_nodup, h.mem_seen hd, h.keys_nodup, fun e children => ?_, h.failures_nodup,
    fun e error => ?_⟩
  · rw [h.mem_edges, h.mem_seen hd, ← outcome_eq_ok_iff (e := e)]
    simp [hd]
  · rw [h.mem_failures, h.mem_seen hd, ← outcome_eq_error_iff]
    simp [hd]

namespace Settled

variable {loaded : List String} {g : DependencyGraph ε}

theorem disjoint (h : Settled answer root loaded g) {e : String} (he : e ∈ g.entrypoints) :
    e ∉ g.failures.map Prod.fst := by
  intro hf
  obtain ⟨⟨e, children⟩, hm, rfl⟩ := List.mem_map.1 he
  obtain ⟨⟨e', error⟩, hm', rfl⟩ := List.mem_map.1 hf
  have hok := outcome_eq_ok_iff (e := e').2 ((h.mem_edges _ _).1 hm).2
  have herror := outcome_eq_error_iff.2 ((h.mem_failures _ _).1 hm').2
  rw [hok] at herror
  cases herror

theorem get?_eq_some_iff (h : Settled answer root loaded g) (e : String) (children : List String) :
    g.get? e = some children ↔ Reachable answer root e ∧ outcome e (answer e) = .ok children := by
  rw [DependencyGraph.get?, lookup_eq_some_iff_mem h.keys_nodup, h.mem_edges, outcome_eq_ok_iff]

theorem get?_eq {loaded' : List String} {g' : DependencyGraph ε}
    (h : Settled answer root loaded g) (h' : Settled answer root loaded' g') (e : String) :
    g.get? e = g'.get? e :=
  Option.ext fun children => (h.get?_eq_some_iff e children).trans (h'.get?_eq_some_iff e children).symm

theorem failures_perm {loaded' : List String} {g' : DependencyGraph ε}
    (h : Settled answer root loaded g) (h' : Settled answer root loaded' g') :
    g.failures.Perm g'.failures :=
  (List.perm_ext_iff_of_nodup (.of_map _ h.failures_nodup) (.of_map _ h'.failures_nodup)).2
    fun ⟨e, error⟩ => (h.mem_failures e error).trans (h'.mem_failures e error).symm

/-- Nothing can be reached from a root that fails. -/
theorem of_failing_root (h : Settled answer root loaded g) {error : ResolveError ε}
    (hr : outcome root (answer root) = .error error) : g = ⟨[], [(root, error)]⟩ := by
  have honly (e : String) (he : Reachable answer root e) : e = root := by
    induction he with
    | root => rfl
    | child parent found mem ih =>
        rw [ih, hr] at found
        cases found
  have hedges : g.edges = [] := by
    refine List.eq_nil_iff_forall_not_mem.2 fun ⟨e, children⟩ hm => ?_
    obtain ⟨he, hok⟩ := (h.mem_edges e children).1 hm
    rw [honly e he, ← outcome_eq_ok_iff (e := root), hr] at hok
    cases hok
  have hfailures : g.failures.Perm [(root, error)] := by
    refine (List.perm_ext_iff_of_nodup (.of_map _ h.failures_nodup) (List.nodup_singleton _)).2
      fun ⟨e, x⟩ => ?_
    rw [h.mem_failures, ← outcome_eq_error_iff, List.mem_singleton]
    constructor
    · rintro ⟨he, hx⟩
      obtain rfl := honly e he
      rw [hr, Except.error.injEq] at hx
      rw [hx]
    · rintro ⟨⟩
      exact ⟨.root, hr⟩
  obtain ⟨edges, failures⟩ := g
  obtain rfl : edges = [] := hedges
  obtain rfl : failures = [(root, error)] := List.perm_singleton.1 hfailures
  rfl

end Settled

theorem answers_logged {loader : Loader σ ε} (h : ∀ e s, (loader e s).1.value = answer e) :
    Answers loader.logged (fun _ => True) answer :=
  ⟨fun e s _ => h e s.2, fun _ _ _ => trivial⟩

theorem step_logged (loader : Loader σ ε) {s : State (List String × σ) ε} (h : s.shared.1 = s.seen) :
    (step loader.logged s).shared.1 = (step loader.logged s).seen := by
  unfold step
  split
  · exact h
  · split
    · exact h
    · simp [Loader.logged, h]
  · split <;> exact h

theorem run_logged (loader : Loader σ ε) (limit : Nat) {s : State (List String × σ) ε}
    (h : s.shared.1 = s.seen) :
    (run loader.logged limit s).shared.1 = (run loader.logged limit s).seen := by
  induction limit generalizing s with
  | zero => exact h
  | succ limit ih =>
      unfold run
      split
      · exact h
      · exact ih (step_logged loader h)

/-- Listing what is loaded changes nothing else. -/
theorem run_unlogged (loader : Loader σ ε) (limit : Nat) (s : State (List String × σ) ε) :
    ∃ r, run loader limit ⟨s.seen, s.graph, s.agenda, s.shared.2⟩ = r ∧
      r.seen = (run loader.logged limit s).seen ∧ r.graph = (run loader.logged limit s).graph ∧
      r.agenda = (run loader.logged limit s).agenda := by
  induction limit generalizing s with
  | zero => exact ⟨_, rfl, rfl, rfl, rfl⟩
  | succ limit ih =>
      have hstep : step loader ⟨s.seen, s.graph, s.agenda, s.shared.2⟩ =
          ⟨(step loader.logged s).seen, (step loader.logged s).graph,
            (step loader.logged s).agenda, (step loader.logged s).shared.2⟩ := by
        obtain ⟨seen, graph, agenda, log, shared⟩ := s
        match agenda with
        | [] => rfl
        | ⟨round, place, .visit e⟩ :: agenda =>
            by_cases hs : e ∈ seen
            · simp [step, hs]
            · simp only [step, List.contains_eq_mem, hs, decide_false, Loader.logged]
              rfl
        | ⟨round, place, .follow e loaded⟩ :: agenda => cases ho : outcome e loaded <;> simp [step, ho]
      by_cases hn : s.agenda = []
      · simp [run, hn]
      · simpa [run, hn, hstep] using ih (step loader.logged s)

/-- What is explored within enough steps is settled by the answers. -/
theorem run_settled {loader : Loader σ ε} (h : ∀ e s, (loader e s).1.value = answer e)
    {es : List String} (hes : ∀ e, Reachable answer root e → e ∈ es) {limit : Nat}
    (hl : cost answer es < limit) (shared : σ) :
    (run loader limit (initial root shared)).agenda = [] ∧
      Settled answer root (loads limit loader root shared) (resolve limit loader root shared).1 := by
  obtain ⟨hd, hi, -⟩ := run_ends (answers_logged h) hes hl ([], shared) trivial
  obtain ⟨r, hr, -, hgraph, hagenda⟩ := run_unlogged loader limit (initial root ([], shared))
  have hlog := run_logged loader limit (s := initial root ([], shared)) rfl
  have hs := hi.settled (by simp [State.view, hd])
  simp only [State.view, ← hlog, ← hgraph, ← hr] at hs
  refine ⟨?_, hs⟩
  rw [← hd, ← hagenda, ← hr]
  rfl

/-- There is a number of steps within which every loader that gives the same answers is done,
however long each of its answers takes.  What is loaded, found and failed then depends on the
answers alone. -/
theorem resolve_settled (answer : String → Except ε LoadedModule) (root : String)
    (finite : {e | Reachable answer root e}.Finite) :
    ∃ steps, ∀ limit ≥ steps,
      (∀ (σ : Type) (loader : Loader σ ε) (shared : σ),
        (∀ e s, (loader e s).1.value = answer e) →
        let g := (resolve limit loader root shared).1
        (run loader limit (initial root shared)).agenda = [] ∧
        Settled answer root (loads limit loader root shared) g ∧
        g.entrypoints.Disjoint (g.failures.map Prod.fst) ∧
        ∀ error, outcome root (answer root) = .error error → g = ⟨[], [(root, error)]⟩) ∧
      ∀ (σ τ : Type) (first : Loader σ ε) (second : Loader τ ε) (s : σ) (t : τ),
        (∀ e s, (first e s).1.value = answer e) → (∀ e t, (second e t).1.value = answer e) →
        let g := (resolve limit first root s).1
        let g' := (resolve limit second root t).1
        (∀ e, g.get? e = g'.get? e) ∧ g.failures.Perm g'.failures := by
  have hes (e : String) (he : Reachable answer root e) : e ∈ finite.toFinset.toList := by simpa
  refine ⟨cost answer finite.toFinset.toList + 1, fun limit hl => ⟨?_, ?_⟩⟩
  · intro σ loader shared h
    obtain ⟨hd, hs⟩ := run_settled h hes hl shared
    exact ⟨hd, hs, fun _ he hf => hs.disjoint he hf, fun error => hs.of_failing_root⟩
  · intro σ τ first second s t h h'
    obtain ⟨-, hs⟩ := run_settled h hes hl s
    obtain ⟨-, hs'⟩ := run_settled h' hes hl t
    exact ⟨hs.get?_eq hs', hs.failures_perm hs'⟩

/-- A module that imports itself, one that imports the first again, and nothing else. -/
def cyclicAnswer (e : String) : Except Unit LoadedModule :=
  if e = "a" then .ok ⟨"import 'a'; import 'b'; import 'b'", "a"⟩
  else if e = "b" then .ok ⟨"export * from 'a'; import 'c'", "b"⟩
  else .error ()

theorem outcome_cyclicAnswer (e : String) : outcome e (cyclicAnswer e) =
    if e = "a" then .ok ["a", "b", "b"] else if e = "b" then .ok ["a", "c"]
    else .error (.unavailable ()) := by
  by_cases ha : e = "a"
  · subst ha
    decide +kernel
  · by_cases hb : e = "b"
    · subst hb
      decide +kernel
    · simp [cyclicAnswer, ha, hb, outcome]

theorem reachable_cyclicAnswer {root e : String} (h : Reachable cyclicAnswer root e) :
    e ∈ [root, "a", "b", "c"] := by
  induction h with
  | root => simp
  | child parent found mem ih =>
      rw [outcome_cyclicAnswer] at found
      split at found
      · cases found
        simp at mem ⊢
        tauto
      · split at found
        · cases found
          simp at mem ⊢
          tauto
        · cases found

theorem resolve_settled_cycle :
    {e | Reachable cyclicAnswer "a" e}.Finite ∧ ∃ limit,
      let g := (resolve limit (fun e delay => (⟨delay, cyclicAnswer e⟩, delay + 1)) "a" 5).1
      g.get? "a" = some ["a", "b", "b"] ∧ g.get? "b" = some ["a", "c"] ∧
        ("c", .unavailable ()) ∈ g.failures := by
  have hfin : {e | Reachable cyclicAnswer "a" e}.Finite :=
    (List.finite_toSet ["a", "a", "b", "c"]).subset fun e he => reachable_cyclicAnswer he
  have ha : Reachable cyclicAnswer "a" "a" := .root
  have hb : Reachable cyclicAnswer "a" "b" := .child ha (outcome_cyclicAnswer "a") (by simp)
  have hc : Reachable cyclicAnswer "a" "c" := .child hb (outcome_cyclicAnswer "b") (by simp)
  obtain ⟨limit, h⟩ := resolve_settled cyclicAnswer "a" hfin
  obtain ⟨-, hs, -, -⟩ := (h limit le_rfl).1 Nat
    (fun e delay => (⟨delay, cyclicAnswer e⟩, delay + 1)) 5 fun _ _ => rfl
  refine ⟨hfin, limit, (hs.get?_eq_some_iff _ _).2 ⟨ha, outcome_cyclicAnswer _⟩,
    (hs.get?_eq_some_iff _ _).2 ⟨hb, outcome_cyclicAnswer _⟩, (hs.mem_failures _ _).2 ⟨hc, .inl ?_⟩⟩
  exact ⟨(), rfl, rfl⟩

end WebModules
