import WebModules.Proofs.Graph.Exploration

/-!
The order in which modules stand in the graph.  Whatever rounds the loader takes, a module is visited
only after one that refers to it has been read, so its key is reserved later; and a module that fails
has led to nothing before its key is taken away.
-/

namespace WebModules.Exploration

open Script Schedule

variable {σ ε : Type} {root : String}

/-- Every edge but that of the root comes after one that refers to its module. -/
def Led (root : String) (edges : List (String × List String)) : Prop :=
  ∀ before e children after, edges = before ++ (e, children) :: after →
    e = root ∨ ∃ p ∈ before, e ∈ p.2

theorem Led.nil (root : String) : Led root [] := by
  intro before e children after h
  simp at h

theorem Led.reserve {edges : List (String × List String)} (h : Led root edges) {e : String}
    (he : e = root ∨ ∃ p ∈ edges, e ∈ p.2) : Led root (edges ++ [(e, [])]) := by
  intro before e' children after hsplit
  rcases List.eq_nil_or_concat after with rfl | ⟨after, last, rfl⟩
  · obtain ⟨rfl, hlast⟩ := List.append_inj' hsplit rfl
    cases hlast
    exact he
  · rw [List.concat_eq_append, ← List.cons_append, ← List.append_assoc] at hsplit
    exact h before e' children after (List.append_inj' hsplit rfl).1

theorem Led.filter {edges : List (String × List String)} (h : Led root edges)
    {keep : String × List String → Bool} (hkeep : ∀ p ∈ edges, ¬keep p → p.2 = []) :
    Led root (edges.filter keep) := by
  intro before e children after hsplit
  obtain ⟨first, rest, rfl, rfl, hrest⟩ := List.filter_eq_append_iff.1 hsplit
  obtain ⟨skipped, after, rfl, hskipped, -, -⟩ := List.filter_eq_cons_iff.1 hrest
  rw [← List.append_assoc] at h
  refine (h (first ++ skipped) e children after rfl).imp_right fun ⟨p, hp, hmem⟩ => ?_
  have hkept : keep p := by
    by_contra hnot
    rw [hkeep p (by rw [← List.append_assoc]; exact List.mem_append_left _ hp) hnot] at hmem
    cases hmem
  rcases List.mem_append.1 hp with hp | hp
  · exact ⟨p, List.mem_filter.2 ⟨hp, hkept⟩, hmem⟩
  · exact absurd hkept (hskipped p hp)

theorem Led.map {edges : List (String × List String)} (h : Led root edges)
    {f : String × List String → String × List String} (hkey : ∀ p ∈ edges, (f p).1 = p.1)
    (hmore : ∀ p ∈ edges, p.2 ⊆ (f p).2) : Led root (edges.map f) := by
  intro before e children after hsplit
  obtain ⟨first, rest, rfl, rfl, hrest⟩ := List.map_eq_append_iff.1 hsplit
  obtain ⟨⟨e', children'⟩, after, rfl, hp, -⟩ := List.map_eq_cons_iff.1 hrest
  have he : e' = e := (hkey (e', children') (by simp)).symm.trans (congrArg Prod.fst hp)
  refine he ▸ (h first e' children' after rfl).imp_right fun ⟨p, hp, hmem⟩ => ?_
  exact ⟨f p, List.mem_map_of_mem hp, hmore p (List.mem_append_left _ hp) hmem⟩

/-- What is awaited has a key that leads nowhere yet, and what is to be visited is referred to by a
key that stays as it is. -/
structure Discovered (root : String) (v : View ε) : Prop where
  keys_seen : ∀ p ∈ v.graph.edges, p.1 ∈ v.seen
  awaited_nodup : (awaited v.duties).Nodup
  awaited_keyed : ∀ e ∈ awaited v.duties, ∃ p ∈ v.graph.edges, p.1 = e
  awaited_bare : ∀ p ∈ v.graph.edges, p.1 ∈ awaited v.duties → p.2 = []
  visits_led : ∀ e ∈ visits v.duties, e = root ∨ ∃ p ∈ v.graph.edges, e ∈ p.2
  led : Led root v.graph.edges
  root_due : v.seen = [] → root ∈ visits v.duties
  root_first : root ∉ v.graph.failures.map Prod.fst → v.seen = [] ∨ v.graph.entrypoints.head? = some root

theorem Discovered.initial (root : String) :
    Discovered root (⟨[], ⟨[], []⟩, [.visit root]⟩ : View ε) := by
  constructor <;> simp [Led.nil]

theorem Discovered.perm {v : View ε} (h : Discovered root v) {ds : List (Duty ε)}
    (hp : ds.Perm v.duties) : Discovered root { v with duties := ds } := by
  have hv : ∀ e, e ∈ visits ds ↔ e ∈ visits v.duties := fun e => (hp.filterMap _).mem_iff
  have ha : ∀ e, e ∈ awaited ds ↔ e ∈ awaited v.duties := fun e => (hp.filterMap _).mem_iff
  exact { h with
    awaited_nodup := (hp.filterMap _).nodup_iff.2 h.awaited_nodup
    awaited_keyed := by simpa only [ha] using h.awaited_keyed
    awaited_bare := by simpa only [ha] using h.awaited_bare
    visits_led := by simpa only [hv] using h.visits_led
    root_due := by simpa only [hv] using h.root_due }

theorem Discovered.skip {v : View ε} {e : String} {ds : List (Duty ε)} (h : Discovered root v)
    (hd : v.duties = .visit e :: ds) (hs : e ∈ v.seen) : Discovered root { v with duties := ds } := by
  exact { h with
    awaited_nodup := by simpa [hd] using h.awaited_nodup
    awaited_keyed := by simpa [hd] using h.awaited_keyed
    awaited_bare := by simpa [hd] using h.awaited_bare
    visits_led := fun c hc => h.visits_led c (by simp [hd, hc])
    root_due := fun hseen => absurd (hseen ▸ hs) List.not_mem_nil }

theorem Discovered.visit {v : View ε} {e : String} {ds : List (Duty ε)} (h : Discovered root v)
    (hd : v.duties = .visit e :: ds) (hs : e ∉ v.seen) (loaded : Except ε LoadedModule) :
    Discovered root ⟨v.seen ++ [e], { v.graph with edges := v.graph.edges ++ [(e, [])] },
      .follow e loaded :: ds⟩ := by
  have hnew : e ∉ awaited ds := by
    intro ha
    obtain ⟨p, hp, rfl⟩ := h.awaited_keyed e (by simpa [hd] using ha)
    exact hs (h.keys_seen p hp)
  have hled := h.visits_led e (by simp [hd])
  constructor
  case keys_seen =>
    intro p hp
    rcases List.mem_append.1 hp with hp | hp
    · exact List.mem_append_left _ (h.keys_seen p hp)
    · simp [List.mem_singleton.1 hp]
  case awaited_nodup => simpa [hnew, hd] using h.awaited_nodup
  case awaited_keyed =>
    intro c hc
    rw [awaited_follow, List.mem_cons] at hc
    rcases hc with rfl | hc
    · exact ⟨(c, []), by simp, rfl⟩
    · obtain ⟨p, hp, hkey⟩ := h.awaited_keyed c (by simpa [hd] using hc)
      exact ⟨p, List.mem_append_left _ hp, hkey⟩
  case awaited_bare =>
    intro p hp ha
    rcases List.mem_append.1 hp with hp | hp
    · rw [awaited_follow, List.mem_cons] at ha
      rcases ha with ha | ha
      · exact absurd (h.keys_seen p hp) (ha ▸ hs)
      · exact h.awaited_bare p hp (by simpa [hd] using ha)
    · rw [List.mem_singleton.1 hp]
  case visits_led =>
    intro c hc
    rw [visits_follow] at hc
    refine (h.visits_led c (by simp [hd, hc])).imp_right fun ⟨p, hp, hmem⟩ => ?_
    exact ⟨p, List.mem_append_left _ hp, hmem⟩
  case led => exact h.led.reserve hled
  case root_due => simp
  case root_first =>
    intro hroot
    refine .inr ?_
    rcases h.root_first hroot with hseen | hfirst
    · -- nothing has a key before the first visit, which is that of the root
      have hedges : v.graph.edges = [] := by
        refine List.eq_nil_iff_forall_not_mem.2 fun p hp => ?_
        have := h.keys_seen p hp
        rw [hseen] at this
        cases this
      have he : e = root := hled.resolve_right (by simp [hedges])
      simp [DependencyGraph.entrypoints, hedges, he]
    · rw [DependencyGraph.entrypoints, List.map_append, List.head?_append]
      exact Option.or_eq_some_iff.2 (.inl hfirst)

section Follow

variable {v : View ε} {e : String} {loaded : Except ε LoadedModule} {ds : List (Duty ε)}

theorem Discovered.awaited_cons (h : Discovered root v) (hd : v.duties = .follow e loaded :: ds) :
    e ∉ awaited ds ∧ (awaited ds).Nodup := by
  simpa [hd] using h.awaited_nodup

theorem Discovered.bare (h : Discovered root v) (hd : v.duties = .follow e loaded :: ds)
    {p : String × List String} (hp : p ∈ v.graph.edges) (hkey : p.1 = e) : p.2 = [] :=
  h.awaited_bare p hp (by rw [hd, awaited_follow, hkey]; exact List.mem_cons_self)

theorem Discovered.key_ne (h : Discovered root v) (hd : v.duties = .follow e loaded :: ds)
    {p : String × List String} (hp : p ∈ v.graph.edges) (hchildren : p.2 ≠ []) : p.1 ≠ e :=
  fun hkey => hchildren (h.bare hd hp hkey)

theorem Discovered.seen_ne_nil (h : Discovered root v) (hd : v.duties = .follow e loaded :: ds) :
    v.seen ≠ [] := by
  obtain ⟨p, hp, -⟩ := h.awaited_keyed e (by simp [hd])
  exact List.ne_nil_of_mem (h.keys_seen p hp)

/-- A key that is taken away has led to nothing. -/
theorem Discovered.fail (h : Discovered root v) (hd : v.duties = .follow e loaded :: ds)
    (error : ResolveError ε) : Discovered root ⟨v.seen, Exploration.fail v.graph e error, ds⟩ := by
  obtain ⟨hnew, hnodup⟩ := h.awaited_cons hd
  constructor
  case keys_seen => exact fun p hp => h.keys_seen p (mem_edges_fail.1 hp).2
  case awaited_nodup => exact hnodup
  case awaited_keyed =>
    intro c hc
    obtain ⟨p, hp, rfl⟩ := h.awaited_keyed c (by simp [hd, hc])
    exact ⟨p, mem_edges_fail.2 ⟨fun hkey => hnew (hkey ▸ hc), hp⟩, rfl⟩
  case awaited_bare => exact fun p hp ha => h.awaited_bare p (mem_edges_fail.1 hp).2 (by simp [hd, ha])
  case visits_led =>
    intro c hc
    refine (h.visits_led c (by simpa [hd] using hc)).imp_right fun ⟨p, hp, hmem⟩ => ?_
    exact ⟨p, mem_edges_fail.2 ⟨h.key_ne hd hp (List.ne_nil_of_mem hmem), hp⟩, hmem⟩
  case led => exact h.led.filter fun p hp hkey => h.bare hd hp (by simpa using hkey)
  case root_due => exact fun hseen => absurd hseen (h.seen_ne_nil hd)
  case root_first =>
    intro hroot
    refine .inr ?_
    have hne : root ≠ e := fun he => hroot (by simp [Exploration.fail, he])
    have hfirst := (h.root_first fun hf => hroot (by simp [Exploration.fail] at hf ⊢; tauto)).resolve_left
      (h.seen_ne_nil hd)
    obtain ⟨keys, hkeys⟩ := List.head?_eq_some_iff.1 hfirst
    obtain ⟨p, rest, hsplit, hp, -⟩ := List.map_eq_cons_iff.1 hkeys
    have hkept : (Exploration.fail v.graph e error).edges = p :: rest.filter fun q => q.1 ≠ e := by
      rw [Exploration.fail, hsplit, List.filter_cons_of_pos (by simpa [hp] using hne)]
    rw [DependencyGraph.entrypoints, hkept, List.map_cons, hp, List.head?_cons]

theorem Discovered.connect (h : Discovered root v) (hd : v.duties = .follow e loaded :: ds)
    (children : List String) :
    Discovered root ⟨v.seen, Exploration.connect v.graph e children, children.map .visit ++ ds⟩ := by
  obtain ⟨hnew, hnodup⟩ := h.awaited_cons hd
  have hkey : e ∈ v.graph.entrypoints := by
    obtain ⟨p, hp, rfl⟩ := h.awaited_keyed e (by simp [hd])
    exact List.mem_map_of_mem hp
  constructor
  case keys_seen =>
    intro p hp
    have hp : p.1 ∈ v.graph.entrypoints := entrypoints_connect v.graph e children ▸ List.mem_map_of_mem hp
    obtain ⟨q, hq, hqp⟩ := List.mem_map.1 hp
    exact hqp ▸ h.keys_seen q hq
  case awaited_nodup => simpa using hnodup
  case awaited_keyed =>
    intro c hc
    rw [awaited_map_append] at hc
    obtain ⟨p, hp, rfl⟩ := h.awaited_keyed c (by simp [hd, hc])
    exact ⟨p, mem_edges_connect.2 (.inr ⟨fun hkey => hnew (hkey ▸ hc), hp⟩), rfl⟩
  case awaited_bare =>
    intro p hp ha
    rw [awaited_map_append] at ha
    rcases mem_edges_connect.1 hp with ⟨hkey, -, -⟩ | ⟨-, hp⟩
    · exact absurd (hkey ▸ ha) hnew
    · exact h.awaited_bare p hp (by simp [hd, ha])
  case visits_led =>
    intro c hc
    rw [visits_map_append, List.mem_append] at hc
    rcases hc with hc | hc
    · exact .inr ⟨(e, children), mem_edges_connect.2 (.inl ⟨rfl, rfl, hkey⟩), hc⟩
    · refine (h.visits_led c (by simpa [hd] using hc)).imp_right fun ⟨p, hp, hmem⟩ => ?_
      exact ⟨p, mem_edges_connect.2 (.inr ⟨h.key_ne hd hp (List.ne_nil_of_mem hmem), hp⟩), hmem⟩
  case led =>
    refine h.led.map (fun p _ => ?_) (fun p hp => ?_)
    · split
      · rename_i hkey
        exact hkey.symm
      · rfl
    · split
      · rename_i hkey
        rw [h.bare hd hp hkey]
        exact List.nil_subset _
      · exact List.Subset.refl _
  case root_due => exact fun hseen => absurd hseen (h.seen_ne_nil hd)
  case root_first =>
    intro hroot
    rw [entrypoints_connect]
    exact h.root_first hroot

end Follow

theorem Moves.discovered {answer : String → Except ε LoadedModule} {v w : View ε}
    (hm : Moves answer v w) (h : Discovered root v) : Discovered root w := by
  cases hm with
  | skip due mem => exact h.skip due mem
  | visit due fresh order => exact (h.visit due fresh _).perm order
  | fail due found => exact h.fail due _
  | connect due found order => exact (h.connect due _).perm order

theorem run_discovered (loader : Loader σ ε) (limit : Nat) {s : State σ ε}
    (h : Discovered root s.view) : Discovered root (run loader limit s).view := by
  induction limit generalizing s with
  | zero => exact h
  | succ limit ih =>
      by_cases hn : s.agenda = []
      · simpa [run, hn] using h
      · have hrun : run loader (limit + 1) s = run loader limit (step loader s) := by
          simp [run, hn]
        rw [hrun]
        exact ih ((step_moves_now loader hn).discovered h)

end WebModules.Exploration
