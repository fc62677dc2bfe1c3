import Mathlib.Algebra.GroupWithZero.Nat
import Mathlib.Algebra.Order.BigOperators.Group.List
import Mathlib.Algebra.Order.Group.Nat
import Mathlib.Data.List.Nodup
import WebModules.Graph

/-!
What every step of an exploration keeps, whatever order the duties are done in, and how many steps
there can be.
-/

namespace WebModules.Exploration

open Script Schedule

variable {σ ε : Type}

/-- What can be reached from a root when modules are loaded with the given answers. -/
inductive Reachable (answer : String → Except ε LoadedModule) (root : String) : String → Prop
  | root : Reachable answer root root
  | child {e c : String} {children : List String} (parent : Reachable answer root e)
      (found : outcome e (answer e) = .ok children) (mem : c ∈ children) : Reachable answer root c

/-- The loader gives these answers as long as what it shares satisfies a condition, and keeps the
condition. -/
structure Answers (loader : Loader σ ε) (kept : σ → Prop)
    (answer : String → Except ε LoadedModule) : Prop where
  value : ∀ e s, kept s → (loader e s).1.value = answer e
  keeps : ∀ e s, kept s → kept (loader e s).2

theorem outcome_eq_ok_iff {e : String} {loaded : Except ε LoadedModule} {children : List String} :
    outcome e loaded = .ok children ↔ ∃ m specifiers, loaded = .ok m ∧
      detect m.source = .ok specifiers ∧ children = specifiers.map (Specifier.join m.location) := by
  cases loaded with
  | error x => simp [outcome]
  | ok m =>
      cases h : detect m.source <;>
        simp [outcome, childrenOf, h, Except.mapError, bind, Except.bind, pure, Except.pure, eq_comm]

theorem outcome_eq_error_iff {e : String} {loaded : Except ε LoadedModule} {error : ResolveError ε} :
    outcome e loaded = .error error ↔ (∃ x, loaded = .error x ∧ error = .unavailable x) ∨
      ∃ m x, loaded = .ok m ∧ detect m.source = .error x ∧ error = .syntaxError e x := by
  cases loaded with
  | error x => simp [outcome, eq_comm]
  | ok m =>
      cases h : detect m.source <;>
        simp [outcome, childrenOf, h, Except.mapError, bind, Except.bind, pure, Except.pure, eq_comm]

def Duty.visit? : Duty ε → Option String
  | .visit e => some e
  | .follow _ _ => none

def Duty.follow? : Duty ε → Option String
  | .visit _ => none
  | .follow e _ => some e

/-- The entrypoints that are to be visited. -/
def visits (duties : List (Duty ε)) : List String := duties.filterMap Duty.visit?

/-- The entrypoints that have been loaded and not yet been followed. -/
def awaited (duties : List (Duty ε)) : List String := duties.filterMap Duty.follow?

@[simp] theorem visits_nil : visits ([] : List (Duty ε)) = [] := rfl

@[simp] theorem awaited_nil : awaited ([] : List (Duty ε)) = [] := rfl

@[simp] theorem visits_visit (e : String) (ds : List (Duty ε)) :
    visits (.visit e :: ds) = e :: visits ds := rfl

@[simp] theorem visits_follow (e : String) (x : Except ε LoadedModule) (ds : List (Duty ε)) :
    visits (.follow e x :: ds) = visits ds := rfl

@[simp] theorem awaited_visit (e : String) (ds : List (Duty ε)) :
    awaited (.visit e :: ds) = awaited ds := rfl

@[simp] theorem awaited_follow (e : String) (x : Except ε LoadedModule) (ds : List (Duty ε)) :
    awaited (.follow e x :: ds) = e :: awaited ds := rfl

@[simp] theorem visits_map_append (children : List String) (ds : List (Duty ε)) :
    visits (children.map Duty.visit ++ ds) = children ++ visits ds := by
  induction children with
  | nil => rfl
  | cons c cs ih => simp [ih]

@[simp] theorem awaited_map_append (children : List String) (ds : List (Duty ε)) :
    awaited (children.map Duty.visit ++ ds) = awaited ds := by
  induction children with
  | nil => rfl
  | cons c cs ih => simp [ih]

section Edges

variable {g : DependencyGraph ε} {e c : String} {children cs : List String}

theorem entrypoints_connect (g : DependencyGraph ε) (e : String) (children : List String) :
    (connect g e children).entrypoints = g.entrypoints := by
  simp only [DependencyGraph.entrypoints, connect, List.map_map]
  refine List.map_congr_left fun p _ => ?_
  by_cases hp : p.1 = e <;> simp [hp]

theorem mem_edges_connect : (c, cs) ∈ (connect g e children).edges ↔
    c = e ∧ cs = children ∧ e ∈ g.entrypoints ∨ c ≠ e ∧ (c, cs) ∈ g.edges := by
  simp only [connect, List.mem_map, DependencyGraph.entrypoints]
  constructor
  · rintro ⟨p, hp, heq⟩
    split at heq
    · rename_i hkey
      obtain ⟨rfl, rfl⟩ := Prod.mk.inj heq
      exact .inl ⟨rfl, rfl, p, hp, hkey⟩
    · rename_i hkey
      subst heq
      exact .inr ⟨hkey, hp⟩
  · rintro (⟨rfl, rfl, p, hp, hkey⟩ | ⟨hkey, hp⟩)
    · exact ⟨p, hp, if_pos hkey⟩
    · exact ⟨(c, cs), hp, if_neg hkey⟩

theorem mem_edges_fail {error : ResolveError ε} :
    (c, cs) ∈ (fail g e error).edges ↔ c ≠ e ∧ (c, cs) ∈ g.edges := by
  simp [fail, and_comm]

end Edges

/-- The part of an exploration that its result depends on. -/
structure View (ε : Type) where
  seen : List String
  graph : DependencyGraph ε
  duties : List (Duty ε)

def State.view (s : State σ ε) : View ε := ⟨s.seen, s.graph, s.agenda.map Item.duty⟩

/-- Everything seen is reachable and stands in the graph: with nothing as long as it is awaited, and
then with all it depends on or with its failure.  What is still to be visited is reachable, and no
child of a followed module is forgotten. -/
structure Invariant (answer : String → Except ε LoadedModule) (root : String) (v : View ε) :
    Prop where
  seen_nodup : v.seen.Nodup
  seen_reachable : ∀ e ∈ v.seen, Reachable answer root e
  visits_reachable : ∀ e ∈ visits v.duties, Reachable answer root e
  awaited_nodup : (awaited v.duties).Nodup
  awaited_seen : ∀ e ∈ awaited v.duties, e ∈ v.seen
  loaded_eq : ∀ e loaded, Duty.follow e loaded ∈ v.duties → loaded = answer e
  keys_nodup : v.graph.entrypoints.Nodup
  failures_nodup : (v.graph.failures.map Prod.fst).Nodup
  mem_edges : ∀ e children, (e, children) ∈ v.graph.edges ↔ e ∈ v.seen ∧
    if e ∈ awaited v.duties then children = [] else outcome e (answer e) = .ok children
  mem_failures : ∀ e error, (e, error) ∈ v.graph.failures ↔ e ∈ v.seen ∧
    e ∉ awaited v.duties ∧ outcome e (answer e) = .error error
  followed : ∀ e ∈ v.seen, e ∉ awaited v.duties → ∀ children, outcome e (answer e) = .ok children →
    ∀ c ∈ children, c ∈ v.seen ∨ c ∈ visits v.duties
  root_found : root ∈ v.seen ∨ root ∈ visits v.duties

variable {answer : String → Except ε LoadedModule} {root : String}

theorem Invariant.initial (answer : String → Except ε LoadedModule) (root : String) :
    Invariant answer root ⟨[], ⟨[], []⟩, [.visit root]⟩ := by
  constructor <;> simp [DependencyGraph.entrypoints, Reachable.root]

/-- The order of the duties does not matter. -/
theorem Invariant.perm {v : View ε} (h : Invariant answer root v) {ds : List (Duty ε)}
    (hp : ds.Perm v.duties) : Invariant answer root { v with duties := ds } := by
  have hv : ∀ e, e ∈ visits ds ↔ e ∈ visits v.duties := fun e => (hp.filterMap _).mem_iff
  have ha : ∀ e, e ∈ awaited ds ↔ e ∈ awaited v.duties := fun e => (hp.filterMap _).mem_iff
  exact { h with
    visits_reachable := by simpa only [hv] using h.visits_reachable
    awaited_nodup := (hp.filterMap _).nodup_iff.2 h.awaited_nodup
    awaited_seen := by simpa only [ha] using h.awaited_seen
    loaded_eq := by simpa only [hp.mem_iff] using h.loaded_eq
    mem_edges := by simpa only [ha] using h.mem_edges
    mem_failures := by simpa only [ha] using h.mem_failures
    followed := by simpa only [ha, hv] using h.followed
    root_found := by simpa only [hv] using h.root_found }

/-- What has been seen is not visited again. -/
theorem Invariant.skip {v : View ε} {e : String} {ds : List (Duty ε)} (h : Invariant answer root v)
    (hd : v.duties = .visit e :: ds) (hs : e ∈ v.seen) :
    Invariant answer root { v with duties := ds } := by
  have keep (c : String) (hc : c ∈ v.seen ∨ c ∈ visits v.duties) : c ∈ v.seen ∨ c ∈ visits ds := by
    simp only [hd, visits_visit, List.mem_cons] at hc
    rcases hc with hc | rfl | hc
    · exact .inl hc
    · exact .inl hs
    · exact .inr hc
  exact { h with
    visits_reachable := fun c hc => h.visits_reachable c (by simp [hd, hc])
    awaited_nodup := by simpa [hd] using h.awaited_nodup
    awaited_seen := by simpa [hd] using h.awaited_seen
    loaded_eq := fun c loaded hc => h.loaded_eq c loaded (by simp [hd, hc])
    mem_edges := by simpa [hd] using h.mem_edges
    mem_failures := by simpa [hd] using h.mem_failures
    followed := fun c hc ha children ho d hm =>
      keep d (h.followed c hc (by simpa [hd] using ha) children ho d hm)
    root_found := keep root h.root_found }

theorem Invariant.mem_seen_of_key {v : View ε} (h : Invariant answer root v) {e : String}
    (he : e ∈ v.graph.entrypoints) : e ∈ v.seen := by
  obtain ⟨⟨e, children⟩, hm, rfl⟩ := List.mem_map.1 he
  exact ((h.mem_edges e children).1 hm).1

theorem Invariant.visit {v : View ε} {e : String} {ds : List (Duty ε)} (h : Invariant answer root v)
    (hd : v.duties = .visit e :: ds) (hs : e ∉ v.seen) :
    Invariant answer root ⟨v.seen ++ [e], { v.graph with edges := v.graph.edges ++ [(e, [])] },
      .follow e (answer e) :: ds⟩ := by
  have hnew : e ∉ awaited ds := fun ha => hs (h.awaited_seen e (by simpa [hd] using ha))
  have hreach : Reachable answer root e := h.visits_reachable e (by simp [hd])
  have keep (c : String) (hc : c ∈ v.seen ∨ c ∈ visits v.duties) :
      c ∈ v.seen ++ [e] ∨ c ∈ visits (.follow e (answer e) :: ds) := by
    simp only [hd, visits_visit, List.mem_cons] at hc
    simp only [List.mem_append, List.mem_singleton, visits_follow]
    tauto
  constructor
  case seen_nodup => exact List.nodup_append'.2 ⟨h.seen_nodup, List.nodup_singleton e, by simpa using hs⟩
  case seen_reachable =>
    intro c hc
    rcases List.mem_append.1 hc with hc | hc
    · exact h.seen_reachable c hc
    · rwa [List.mem_singleton.1 hc]
  case visits_reachable => exact fun c hc => h.visits_reachable c (by simpa [hd] using .inr hc)
  case awaited_nodup =>
    rw [awaited_follow, List.nodup_cons]
    exact ⟨hnew, by simpa [hd] using h.awaited_nodup⟩
  case awaited_seen =>
    intro c hc
    rw [awaited_follow, List.mem_cons] at hc
    rcases hc with rfl | hc
    · simp
    · exact List.mem_append_left _ (h.awaited_seen c (by simpa [hd] using hc))
  case loaded_eq =>
    intro c loaded hc
    rcases List.mem_cons.1 hc with hc | hc
    · cases hc
      rfl
    · exact h.loaded_eq c loaded (by simp [hd, hc])
  case keys_nodup =>
    have hkey : e ∉ v.graph.entrypoints := fun hk => hs (h.mem_seen_of_key hk)
    simpa [DependencyGraph.entrypoints] using
      List.nodup_append'.2 ⟨h.keys_nodup, List.nodup_singleton e, by simpa using hkey⟩
  case failures_nodup => exact h.failures_nodup
  case mem_edges =>
    intro c children
    have hold := h.mem_edges c children
    rw [hd, awaited_visit] at hold
    by_cases hc : c = e
    · subst hc
      simp [hs, hold]
    · simp [hc, hold]
  case mem_failures =>
    intro c error
    have hold := h.mem_failures c error
    rw [hd, awaited_visit] at hold
    by_cases hc : c = e
    · subst hc
      simp [hs, hold]
    · simp [hc, hold]
  case followed =>
    intro c hc ha children ho d hm
    have hne : c ≠ e ∧ c ∉ awaited ds := by simpa using ha
    have hseen : c ∈ v.seen := by simpa [hne.1] using hc
    exact keep d (h.followed c hseen (by simpa [hd] using hne.2) children ho d hm)
  case root_found => exact keep root h.root_found

section Follow

variable {v : View ε} {e : String} {loaded : Except ε LoadedModule} {ds : List (Duty ε)}

theorem Invariant.awaited_cons (h : Invariant answer root v) (hd : v.duties = .follow e loaded :: ds) :
    e ∉ awaited ds ∧ (awaited ds).Nodup := by
  simpa [hd] using h.awaited_nodup

theorem Invariant.seen_of_due (h : Invariant answer root v) (hd : v.duties = .follow e loaded :: ds) : e ∈ v.seen :=
  h.awaited_seen e (by simp [hd])

/-- A module that cannot be had or read leaves the graph with its failure. -/
theorem Invariant.fail {error : ResolveError ε} (h : Invariant answer root v)
    (hd : v.duties = .follow e loaded :: ds) (ho : outcome e loaded = .error error) :
    Invariant answer root ⟨v.seen, Exploration.fail v.graph e error, ds⟩ := by
  obtain rfl : loaded = answer e := h.loaded_eq e loaded (by simp [hd])
  obtain ⟨hnew, hnodup⟩ := h.awaited_cons hd
  have hseen := h.seen_of_due hd
  have hfresh : e ∉ v.graph.failures.map Prod.fst := by
    intro hf
    obtain ⟨⟨c, x⟩, hm, rfl⟩ := List.mem_map.1 hf
    exact ((h.mem_failures c x).1 hm).2.1 (by simp [hd])
  constructor
  case seen_nodup => exact h.seen_nodup
  case seen_reachable => exact h.seen_reachable
  case visits_reachable => simpa [hd] using h.visits_reachable
  case awaited_nodup => exact hnodup
  case awaited_seen => exact fun c hc => h.awaited_seen c (by simp [hd, hc])
  case loaded_eq => exact fun c x hc => h.loaded_eq c x (by simp [hd, hc])
  case keys_nodup => exact h.keys_nodup.sublist (List.filter_sublist.map _)
  case failures_nodup =>
    simpa [Exploration.fail] using
      List.nodup_append'.2 ⟨h.failures_nodup, List.nodup_singleton e, by simpa using hfresh⟩
  case mem_edges =>
    intro c children
    rw [mem_edges_fail, h.mem_edges, hd, awaited_follow]
    by_cases hc : c = e
    · subst hc
      simp [hnew, ho]
    · simp [hc]
  case mem_failures =>
    intro c x
    have hold := h.mem_failures c x
    rw [hd, awaited_follow] at hold
    by_cases hc : c = e
    · subst hc
      simp [Exploration.fail, hnew, ho, hseen, hold, eq_comm]
    · simp [Exploration.fail, hc, hold]
  case followed =>
    intro c hc ha children hok d hm
    have hne : c ≠ e := by
      rintro rfl
      simp [ho] at hok
    simpa [hd] using h.followed c hc (by simp [hd, hne, ha]) children hok d hm
  case root_found => simpa [hd] using h.root_found

/-- A module that is there gets everything that it depends on, which is then visited. -/
theorem Invariant.connect {children : List String} (h : Invariant answer root v)
    (hd : v.duties = .follow e loaded :: ds) (ho : outcome e loaded = .ok children) :
    Invariant answer root
      ⟨v.seen, Exploration.connect v.graph e children, children.map .visit ++ ds⟩ := by
  obtain rfl : loaded = answer e := h.loaded_eq e loaded (by simp [hd])
  obtain ⟨hnew, hnodup⟩ := h.awaited_cons hd
  have hseen := h.seen_of_due hd
  have hkey : e ∈ v.graph.entrypoints :=
    List.mem_map_of_mem ((h.mem_edges e []).2 ⟨hseen, by simp [hd]⟩)
  constructor
  case seen_nodup => exact h.seen_nodup
  case seen_reachable => exact h.seen_reachable
  case visits_reachable =>
    intro c hc
    rw [visits_map_append, List.mem_append] at hc
    rcases hc with hc | hc
    · exact .child (h.seen_reachable e hseen) ho hc
    · exact h.visits_reachable c (by simpa [hd] using hc)
  case awaited_nodup => simpa using hnodup
  case awaited_seen =>
    intro c hc
    rw [awaited_map_append] at hc
    exact h.awaited_seen c (by simp [hd, hc])
  case loaded_eq =>
    intro c x hc
    refine h.loaded_eq c x ?_
    simp only [List.mem_append, List.mem_map, reduceCtorEq, and_false, exists_false, false_or] at hc
    simp [hd, hc]
  case keys_nodup => simpa only [entrypoints_connect] using h.keys_nodup
  case failures_nodup => exact h.failures_nodup
  case mem_edges =>
    intro c cs
    rw [mem_edges_connect, h.mem_edges, hd, awaited_follow, awaited_map_append]
    by_cases hc : c = e
    · subst hc
      simp [hnew, hseen, hkey, ho, eq_comm]
    · simp [hc]
  case mem_failures =>
    intro c x
    have hold := h.mem_failures c x
    rw [hd, awaited_follow] at hold
    simp only [Exploration.connect, awaited_map_append]
    by_cases hc : c = e
    · subst hc
      simp [hold, ho]
    · simp [hold, hc]
  case followed =>
    intro c hc ha cs hok d hm
    rw [awaited_map_append] at ha
    rw [visits_map_append, List.mem_append]
    by_cases hce : c = e
    · subst hce
      rw [ho, Except.ok.injEq] at hok
      exact .inr (.inl (hok ▸ hm))
    · have := h.followed c hc (by simp [hd, hce, ha]) cs hok d hm
      rw [hd, visits_follow] at this
      tauto
  case root_found =>
    have := h.root_found
    rw [hd, visits_follow] at this
    rw [visits_map_append, List.mem_append]
    tauto

end Follow

/-- What one step does, up to the order of the duties. -/
inductive Moves (answer : String → Except ε LoadedModule) (v : View ε) : View ε → Prop
  | skip {e : String} {ds : List (Duty ε)} (due : v.duties = .visit e :: ds) (mem : e ∈ v.seen) :
      Moves answer v { v with duties := ds }
  | visit {e : String} {ds ds' : List (Duty ε)} (due : v.duties = .visit e :: ds)
      (fresh : e ∉ v.seen) (order : ds'.Perm (.follow e (answer e) :: ds)) :
      Moves answer v
        ⟨v.seen ++ [e], { v.graph with edges := v.graph.edges ++ [(e, [])] }, ds'⟩
  | fail {e : String} {loaded : Except ε LoadedModule} {error : ResolveError ε}
      {ds : List (Duty ε)} (due : v.duties = .follow e loaded :: ds)
      (found : outcome e loaded = .error error) :
      Moves answer v ⟨v.seen, Exploration.fail v.graph e error, ds⟩
  | connect {e : String} {loaded : Except ε LoadedModule} {children : List String}
      {ds ds' : List (Duty ε)} (due : v.duties = .follow e loaded :: ds)
      (found : outcome e loaded = .ok children) (order : ds'.Perm (children.map .visit ++ ds)) :
      Moves answer v ⟨v.seen, Exploration.connect v.graph e children, ds'⟩

theorem Moves.invariant {v w : View ε} (hm : Moves answer v w) (h : Invariant answer root v) :
    Invariant answer root w := by
  cases hm with
  | skip due mem => exact h.skip due mem
  | visit due fresh order => exact (h.visit due fresh).perm order
  | fail due found => exact h.fail due found
  | connect due found order => exact (h.connect due found).perm order

theorem schedule_perm (item : Item ε) (agenda : List (Item ε)) :
    (schedule item agenda).Perm (item :: agenda) := by
  induction agenda with
  | nil => exact .refl _
  | cons other agenda ih =>
      unfold schedule
      split
      · exact .refl _
      · exact (ih.cons other).trans (.swap item other agenda)

theorem foldl_schedule_perm (items agenda : List (Item ε)) :
    (items.foldl (fun agenda item => schedule item agenda) agenda).Perm (items ++ agenda) := by
  induction items generalizing agenda with
  | nil => exact .refl _
  | cons item items ih =>
      calc (items.foldl (fun agenda item => schedule item agenda) (schedule item agenda)).Perm
            (items ++ schedule item agenda) := ih _
        List.Perm _ (items ++ item :: agenda) := (schedule_perm item agenda).append_left items
        List.Perm _ (item :: items ++ agenda) := List.perm_middle

theorem map_duty_visits (round : Nat) (place : List Nat) (children : List String) (start : Nat) :
    ((children.zipIdx start).map fun (child, index) =>
      (⟨round, place ++ [index], .visit child⟩ : Item ε)).map Item.duty =
        children.map Duty.visit := by
  induction children generalizing start with
  | nil => rfl
  | cons c cs ih => simpa using ih (start + 1)

/-- A step is a move that heeds the answers given at its time. -/
theorem step_moves_now (loader : Loader σ ε) {s : State σ ε} (hn : s.agenda ≠ []) :
    Moves (fun e => (loader e s.shared).1.value) s.view (step loader s).view := by
  obtain ⟨seen, graph, agenda, shared⟩ := s
  match agenda, hn with
  | ⟨round, place, .visit e⟩ :: agenda, _ =>
    by_cases hs : e ∈ seen
    · have he : step loader ⟨seen, graph, ⟨round, place, .visit e⟩ :: agenda, shared⟩ =
          ⟨seen, graph, agenda, shared⟩ := by simp [step, hs]
      rw [he]
      exact .skip rfl hs
    · have he : step loader ⟨seen, graph, ⟨round, place, .visit e⟩ :: agenda, shared⟩ =
          ⟨seen ++ [e], { graph with edges := graph.edges ++ [(e, [])] },
            schedule ⟨round + (loader e shared).1.delay, place,
              .follow e (loader e shared).1.value⟩ agenda, (loader e shared).2⟩ := by
        simp [step, hs]
        rfl
      have hp := (schedule_perm ⟨round + (loader e shared).1.delay, place,
        .follow e (loader e shared).1.value⟩ agenda).map Item.duty
      rw [List.map_cons] at hp
      rw [he]
      exact .visit rfl hs hp
  | ⟨round, place, .follow e loaded⟩ :: agenda, _ =>
    cases ho : outcome e loaded with
    | error x =>
        have he : step loader ⟨seen, graph, ⟨round, place, .follow e loaded⟩ :: agenda, shared⟩ =
            ⟨seen, Exploration.fail graph e x, agenda, shared⟩ := by simp [step, ho]
        rw [he]
        exact .fail rfl ho
    | ok children =>
        have he : step loader ⟨seen, graph, ⟨round, place, .follow e loaded⟩ :: agenda, shared⟩ =
            ⟨seen, Exploration.connect graph e children,
              (children.zipIdx.map fun (child, index) =>
                (⟨round, place ++ [index], .visit child⟩ : Item ε)).foldl
                  (fun agenda item => schedule item agenda) agenda, shared⟩ := by simp [step, ho]
        have hp := (foldl_schedule_perm (children.zipIdx.map fun (child, index) =>
          (⟨round, place ++ [index], .visit child⟩ : Item ε)) agenda).map Item.duty
        rw [List.map_append, map_duty_visits] at hp
        rw [he]
        exact .connect rfl ho hp

/-- What is shared changes only where something is loaded. -/
theorem step_keeps {loader : Loader σ ε} {kept : σ → Prop} (hk : ∀ e s, kept s → kept (loader e s).2)
    {s : State σ ε} (hs : kept s.shared) : kept (step loader s).shared := by
  unfold step
  split
  · exact hs
  · split
    · exact hs
    · exact hk _ _ hs
  · split <;> exact hs

theorem step_moves {loader : Loader σ ε} {kept : σ → Prop} (ha : Answers loader kept answer)
    {s : State σ ε} (hk : kept s.shared) (hn : s.agenda ≠ []) :
    Moves answer s.view (step loader s).view ∧ kept (step loader s).shared := by
  have hanswer : (fun e => (loader e s.shared).1.value) = answer :=
    funext fun e => ha.value e s.shared hk
  exact ⟨hanswer ▸ step_moves_now loader hn, step_keeps ha.keeps hk⟩

/-- The number of visits that follow from a module. -/
def branches (answer : String → Except ε LoadedModule) (e : String) : Nat :=
  match outcome e (answer e) with
  | .ok children => children.length
  | .error _ => 0

/-- The number of steps that modules give rise to. -/
def cost (answer : String → Except ε LoadedModule) (es : List String) : Nat :=
  (es.map fun e => branches answer e + 1).sum

/-- The number of steps that are known to be left. -/
def View.left (answer : String → Except ε LoadedModule) (v : View ε) : Nat :=
  v.duties.length + ((awaited v.duties).map (branches answer)).sum

theorem Moves.left {v w : View ε} (hm : Moves answer v w) (h : Invariant answer root v) :
    w.left answer + 1 + cost answer v.seen = v.left answer + cost answer w.seen := by
  have paid {ds ds' : List (Duty ε)} (hp : ds'.Perm ds) :
      ds'.length = ds.length ∧ ((awaited ds').map (branches answer)).sum =
        ((awaited ds).map (branches answer)).sum :=
    ⟨hp.length_eq, ((hp.filterMap _).map _).sum_nat⟩
  cases hm with
  | skip due mem => simp [View.left, due]; omega
  | visit due fresh order =>
      simp [View.left, due, paid order, cost]
      omega
  | fail due found =>
      obtain rfl := h.loaded_eq _ _ (by rw [due]; exact List.mem_cons_self)
      simp [View.left, due, branches, found]
      omega
  | connect due found order =>
      obtain rfl := h.loaded_eq _ _ (by rw [due]; exact List.mem_cons_self)
      simp [View.left, due, paid order, branches, found]
      omega

/-- A run either ends or uses up its steps. -/
theorem run_spec {loader : Loader σ ε} {kept : σ → Prop} (ha : Answers loader kept answer)
    (limit : Nat) {s : State σ ε} (hk : kept s.shared) (h : Invariant answer root s.view) :
    Invariant answer root (run loader limit s).view ∧ kept (run loader limit s).shared ∧
      ((run loader limit s).agenda = [] ∨
        (run loader limit s).view.left answer + limit + cost answer s.seen =
          s.view.left answer + cost answer (run loader limit s).seen) := by
  induction limit generalizing s with
  | zero => exact ⟨h, hk, .inr rfl⟩
  | succ limit ih =>
      by_cases hn : s.agenda = []
      · simpa [run, hn] using ⟨h, hk⟩
      · obtain ⟨hm, hk'⟩ := step_moves ha hk hn
        obtain ⟨hinv, hkept, hleft⟩ := ih hk' (hm.invariant h)
        have hrun : run loader (limit + 1) s = run loader limit (step loader s) := by
          simp [run, hn]
        rw [hrun]
        refine ⟨hinv, hkept, hleft.imp_right fun hl => ?_⟩
        have := hm.left h
        simp only [State.view] at this hl ⊢
        omega

theorem cost_le (answer : String → Except ε LoadedModule) {es fs : List String} (hn : es.Nodup) (hs : ∀ e ∈ es, e ∈ fs) :
    cost answer es ≤ cost answer fs := by
  obtain ⟨gs, hp, hl⟩ := List.subperm_of_subset hn hs
  rw [cost, ← (hp.map _).sum_nat]
  exact (hl.map _).sum_le_sum fun _ _ => Nat.zero_le _

/-- An exploration ends, with all its duties done, once it may take as many steps as the modules
that can be reached give rise to. -/
theorem run_ends {loader : Loader σ ε} {kept : σ → Prop} (ha : Answers loader kept answer)
    {es : List String} (hes : ∀ e, Reachable answer root e → e ∈ es) {limit : Nat}
    (hl : cost answer es < limit) (shared : σ) (hk : kept shared) :
    (run loader limit (initial root shared)).agenda = [] ∧
      Invariant answer root (run loader limit (initial root shared)).view ∧
      kept (run loader limit (initial root shared)).shared := by
  obtain ⟨h, hkept, hleft⟩ := run_spec ha limit (s := initial root shared) hk (.initial answer root)
  refine ⟨hleft.elim id fun hleft => ?_, h, hkept⟩
  have hcost := cost_le answer h.seen_nodup fun e he => hes e (h.seen_reachable e he)
  have hroot : (initial root shared : State σ ε).view.left answer = 1 := rfl
  have hnone : cost answer (initial root shared : State σ ε).seen = 0 := rfl
  have hlength : (run loader limit (initial root shared)).agenda.length ≤
      (run loader limit (initial root shared)).view.left answer := by
    simp [View.left, State.view]
  rw [hroot, hnone] at hleft
  simp only [State.view] at hcost
  exact List.length_eq_zero_iff.1 (by omega)

/-- An exploration can be ended from any state. -/
theorem exists_run_ends {loader : Loader σ ε} {kept : σ → Prop} (ha : Answers loader kept answer) {es : List String}
    (hes : ∀ e, Reachable answer root e → e ∈ es) {s : State σ ε} (hk : kept s.shared)
    (h : Invariant answer root s.view) : ∃ limit, (run loader limit s).agenda = [] := by
  refine ⟨s.view.left answer + cost answer es + 1, ?_⟩
  obtain ⟨h', -, hleft⟩ := run_spec ha (s.view.left answer + cost answer es + 1) hk h
  refine hleft.elim id fun hleft => ?_
  have hcost := cost_le answer h'.seen_nodup fun e he => hes e (h'.seen_reachable e he)
  simp only [State.view] at hcost hleft
  omega

/-- Once nothing is left to do, what has been seen is what can be reached. -/
theorem Invariant.mem_seen {v : View ε} (h : Invariant answer root v) (hd : v.duties = [])
    (e : String) : e ∈ v.seen ↔ Reachable answer root e := by
  refine ⟨h.seen_reachable e, fun hr => ?_⟩
  induction hr with
  | root => simpa [hd] using h.root_found
  | child parent found mem ih => simpa [hd] using h.followed _ ih (by simp [hd]) _ found _ mem

end WebModules.Exploration
