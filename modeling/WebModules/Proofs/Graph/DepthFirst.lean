import WebModules.Proofs.Graph.Discovery
import WebModules.Proofs.Graph.Resolve

/-!
Where nothing has to be waited for, the agenda is a stack, and an exploration is a depth-first search:
what a module refers to is searched, in the order of the specifiers, before whatever is due after it.
The modules of the graph are those that the search finds and can read, in the order of its first
visits, and the failures are the others in the same order.
-/

namespace WebModules.Exploration

open Script Schedule

variable {σ ε : Type}

/-- What a visit finds: what the module depends on, or why it has failed. -/
abbrev Finding (ε : Type) := String × Except (ResolveError ε) (List String)

/-- A depth-first search from some entrypoints: what it finds, in the order of first visits, and what
is shared after it.  What has been seen is passed; anything else is loaded, and what it depends on is
searched before the rest. -/
inductive Search (loader : Loader σ ε) : List String → σ → List String → List (Finding ε) → σ → Prop
  | done (seen : List String) (s : σ) : Search loader seen s [] [] s
  | pass {seen es : List String} {s t : σ} {e : String} {found : List (Finding ε)} (mem : e ∈ seen)
      (rest : Search loader seen s es found t) : Search loader seen s (e :: es) found t
  | enter {seen es : List String} {s t u : σ} {e : String} {inner found : List (Finding ε)}
      {result : Except (ResolveError ε) (List String)} (fresh : e ∉ seen)
      (read : outcome e (loader e s).1.value = result)
      (below : Search loader (seen ++ [e]) (loader e s).2 (result.toOption.getD []) inner t)
      (rest : Search loader (seen ++ e :: inner.map Prod.fst) t es found u) :
      Search loader seen s (e :: es) ((e, result) :: (inner ++ found)) u

/-- A search comes to one end. -/
theorem Search.unique {loader : Loader σ ε} {seen es : List String} {s t t' : σ}
    {found found' : List (Finding ε)} (h : Search loader seen s es found t)
    (h' : Search loader seen s es found' t') : found' = found ∧ t' = t := by
  induction h generalizing found' t' with
  | done seen s =>
      cases h'
      exact ⟨rfl, rfl⟩
  | pass mem rest ih =>
      cases h' with
      | pass _ rest' => exact ih rest'
      | enter fresh => exact absurd mem fresh
  | enter fresh read below rest ihbelow ihrest =>
      cases h' with
      | pass mem _ => exact absurd mem fresh
      | enter _ read' below' rest' =>
          obtain rfl := read.symm.trans read'
          obtain ⟨rfl, rfl⟩ := ihbelow below'
          obtain ⟨rfl, rfl⟩ := ihrest rest'
          exact ⟨rfl, rfl⟩

def Finding.edge? (f : Finding ε) : Option (String × List String) := f.2.toOption.map (f.1, ·)

def Finding.failure? (f : Finding ε) : Option (String × ResolveError ε) :=
  match f.2 with
  | .error e => some (f.1, e)
  | .ok _ => none

/-- A graph with what has been found after it: what can be read, and the failures left out of it. -/
def extend (g : DependencyGraph ε) (found : List (Finding ε)) : DependencyGraph ε :=
  ⟨g.edges ++ found.filterMap Finding.edge?, g.failures ++ found.filterMap Finding.failure?⟩

@[simp] theorem extend_nil (g : DependencyGraph ε) : extend g [] = g := by simp [extend]

theorem extend_append (g : DependencyGraph ε) (found found' : List (Finding ε)) :
    extend g (found ++ found') = extend (extend g found) found' := by simp [extend]

theorem key_of_edge? {f : Finding ε} {p : String × List String} (h : f.edge? = some p) : p.1 = f.1 := by
  obtain ⟨children, -, rfl⟩ := Option.map_eq_some_iff.1 h
  rfl

section Reserved

variable {g : DependencyGraph ε} {e : String} (h : ∀ p ∈ g.edges, p.1 ≠ e)

include h

/-- A key that was reserved last and is taken away leaves the failure alone. -/
theorem fail_reserved (error : ResolveError ε) :
    fail { g with edges := g.edges ++ [(e, [])] } e error = extend g [(e, .error error)] := by
  have hkept : g.edges.filter (fun p => p.1 ≠ e) = g.edges :=
    List.filter_eq_self.2 fun p hp => decide_eq_true (h p hp)
  rw [fail, List.filter_append, hkept, List.filter_cons_of_neg (by simp), extend]
  rfl

theorem connect_reserved (children : List String) :
    connect { g with edges := g.edges ++ [(e, [])] } e children = extend g [(e, .ok children)] := by
  have hkept : g.edges.map (fun p => if p.1 = e then (e, children) else p) = g.edges.map id :=
    List.map_congr_left fun p hp => if_neg (h p hp)
  rw [connect, List.map_append, hkept, List.map_id, List.map_singleton, if_pos rfl, extend]
  simp [Finding.edge?, Finding.failure?, Except.toOption]

end Reserved

/-! Places in the tree of visits -/

/-- A place and all places below it come before another one and all below that. -/
def Ahead (p q : List Nat) : Prop :=
  ∃ common a b x y, p = common ++ a :: x ∧ q = common ++ b :: y ∧ a < b

theorem Ahead.below {p q : List Nat} (h : Ahead p q) (z : List Nat) : Ahead (p ++ z) q := by
  obtain ⟨common, a, b, x, y, rfl, rfl, hlt⟩ := h
  exact ⟨common, a, b, x ++ z, y, by simp, rfl, hlt⟩

theorem ahead_children (p : List Nat) {a b : Nat} (h : a < b) : Ahead (p ++ [a]) (p ++ [b]) :=
  ⟨p, a, b, [], [], rfl, rfl, h⟩

theorem Ahead.placeBefore {p q : List Nat} (h : Ahead p q) :
    placeBefore p q = true ∧ placeBefore q p = false := by
  obtain ⟨common, a, b, x, y, rfl, rfl, hlt⟩ := h
  induction common with
  | nil =>
      have hne : b ≠ a := Nat.ne_of_gt hlt
      simp [Exploration.placeBefore, hlt, hne, Nat.le_of_lt hlt]
  | cons c common ih => simpa [Exploration.placeBefore] using ih

/-- The item is due in the round of another one and has a place ahead of it. -/
def Item.Above (a b : Item ε) : Prop := a.round = b.round ∧ Ahead a.place b.place

theorem Item.Above.before {a b : Item ε} (h : a.Above b) : a.before b = true ∧ b.before a = false := by
  obtain ⟨hround, hplace⟩ := h
  simp [Item.before, hround, hplace.placeBefore]

theorem schedule_front {item : Item ε} {agenda : List (Item ε)} (h : ∀ other ∈ agenda, item.Above other) :
    schedule item agenda = item :: agenda := by
  cases agenda with
  | nil => rfl
  | cons other agenda => rw [schedule, if_pos (h other List.mem_cons_self).before.1]

theorem schedule_behind {item : Item ε} {first agenda : List (Item ε)}
    (h : ∀ other ∈ first, other.Above item) :
    schedule item (first ++ agenda) = first ++ schedule item agenda := by
  induction first with
  | nil => rfl
  | cons other first ih =>
      rw [List.cons_append, schedule, (h other List.mem_cons_self).before.2,
        ih fun next hnext => h next (List.mem_cons_of_mem _ hnext)]
      rfl

/-- Items that are above the agenda are put on top of it, in their order. -/
theorem foldl_schedule_stacked {first items agenda : List (Item ε)}
    (h : (first ++ items ++ agenda).Pairwise Item.Above) :
    items.foldl (fun agenda item => schedule item agenda) (first ++ agenda) =
      first ++ items ++ agenda := by
  induction items generalizing first with
  | nil => simp
  | cons item items ih =>
      have habove : ∀ other ∈ first, other.Above item := fun other hother =>
        (List.pairwise_append.1 (List.pairwise_append.1 h).1).2.2 other hother item List.mem_cons_self
      have hbelow : ∀ other ∈ agenda, item.Above other := fun other hother =>
        (List.pairwise_append.1 h).2.2 item (by simp) other hother
      rw [List.foldl_cons, schedule_behind habove, schedule_front hbelow]
      have hrest : (first ++ [item] ++ items ++ agenda).Pairwise Item.Above := by simpa using h
      simpa using ih hrest

/-- The visits that a module with some place leads to. -/
def visitsFrom (round : Nat) (place : List Nat) (children : List String) : List (Item ε) :=
  children.zipIdx.map fun (child, index) => ⟨round, place ++ [index], .visit child⟩

theorem visitsFrom_above (round : Nat) (place : List Nat) (children : List String) :
    (visitsFrom round place children : List (Item ε)).Pairwise Item.Above := by
  rw [visitsFrom, List.pairwise_map]
  have hplaces : (children.zipIdx.map Prod.snd).Pairwise (· < ·) := by
    rw [List.zipIdx_map_snd]
    exact List.pairwise_lt_range'
  exact (List.pairwise_map.1 hplaces).imp fun h => ⟨rfl, ahead_children place h⟩

theorem visitsFrom_below {item : Item ε} {children : List String} {other : Item ε}
    (h : item.Above other) : ∀ child ∈ visitsFrom item.round item.place children, child.Above other := by
  intro child hchild
  obtain ⟨⟨e, index⟩, -, rfl⟩ := List.mem_map.1 hchild
  exact ⟨h.1, h.2.below [index]⟩

/-- The agenda is a stack, and every key is that of a module that has been seen. -/
structure Stacked (s : State σ ε) : Prop where
  above : s.agenda.Pairwise Item.Above
  keys_seen : ∀ p ∈ s.graph.edges, p.1 ∈ s.seen

variable {loader : Loader σ ε} (hnow : ∀ e s, (loader e s).1.delay = 0)

include hnow in
theorem step_enter {s : State σ ε} (h : Stacked s) {round : Nat} {place : List Nat} {e : String}
    {rest : List (Item ε)} (hagenda : s.agenda = ⟨round, place, .visit e⟩ :: rest) (hfresh : e ∉ s.seen) :
    (step loader s).agenda ≠ [] ∧
    step loader (step loader s) =
      ⟨s.seen ++ [e], extend s.graph [(e, outcome e (loader e s.shared).1.value)],
        visitsFrom round place ((outcome e (loader e s.shared).1.value).toOption.getD []) ++ rest,
        (loader e s.shared).2⟩ := by
  obtain ⟨seen, graph, agenda, shared⟩ := s
  obtain rfl : agenda = ⟨round, place, .visit e⟩ :: rest := hagenda
  have habove := List.pairwise_cons.1 h.above
  have hvisited : step loader ⟨seen, graph, ⟨round, place, .visit e⟩ :: rest, shared⟩ =
      ⟨seen ++ [e], { graph with edges := graph.edges ++ [(e, [])] },
        ⟨round, place, .follow e (loader e shared).1.value⟩ :: rest, (loader e shared).2⟩ := by
    have hfront : schedule ⟨round + (loader e shared).1.delay, place,
        .follow e (loader e shared).1.value⟩ rest =
          ⟨round, place, .follow e (loader e shared).1.value⟩ :: rest := by
      rw [hnow, Nat.add_zero]
      exact schedule_front fun other hother => habove.1 other hother
    have hcontains : seen.contains e = false := by simpa using hfresh
    simp only [step, hcontains, Bool.false_eq_true, if_false]
    rw [← hfront]
    rfl
  have hkeys : ∀ p ∈ graph.edges, p.1 ≠ e := fun p hp hkey => hfresh (hkey ▸ h.keys_seen p hp)
  rw [hvisited]
  refine ⟨List.cons_ne_nil _ _, ?_⟩
  cases ho : outcome e (loader e shared).1.value with
  | error x =>
      simp only [step, ho, fail_reserved hkeys]
      rfl
  | ok children =>
      have hstacked : (visitsFrom round place children).foldl
          (fun agenda item => schedule item agenda) rest = visitsFrom round place children ++ rest := by
        refine @foldl_schedule_stacked ε [] _ rest (List.pairwise_append.2
          ⟨visitsFrom_above round place children, habove.2, fun child hchild other hother => ?_⟩)
        exact visitsFrom_below (habove.1 other hother) child hchild
      simp only [step, ho, connect_reserved hkeys]
      exact congrArg (State.mk _ _ · _) hstacked

theorem keys_extend {g : DependencyGraph ε} {seen : List String} (h : ∀ p ∈ g.edges, p.1 ∈ seen)
    (found : List (Finding ε)) : ∀ p ∈ (extend g found).edges, p.1 ∈ seen ++ found.map Prod.fst := by
  intro p hp
  rcases List.mem_append.1 hp with hp | hp
  · exact List.mem_append_left _ (h p hp)
  · obtain ⟨f, hf, hedge⟩ := List.mem_filterMap.1 hp
    exact List.mem_append_right _ (key_of_edge? hedge ▸ List.mem_map_of_mem hf)

theorem Stacked.enter {s : State σ ε} (h : Stacked s) {round : Nat} {place : List Nat} {e : String}
    {rest : List (Item ε)} (hagenda : s.agenda = ⟨round, place, .visit e⟩ :: rest)
    (result : Except (ResolveError ε) (List String)) (children : List String) (shared : σ) :
    Stacked (⟨s.seen ++ [e], extend s.graph [(e, result)], visitsFrom round place children ++ rest,
      shared⟩ : State σ ε) := by
  have habove := List.pairwise_cons.1 (hagenda ▸ h.above)
  refine ⟨List.pairwise_append.2 ⟨visitsFrom_above round place children, habove.2,
    fun child hchild other hother => ?_⟩, keys_extend h.keys_seen [(e, result)]⟩
  exact visitsFrom_below (habove.1 other hother) child hchild

theorem run_step (loader : Loader σ ε) {s : State σ ε} (hn : s.agenda ≠ []) (limit : Nat) :
    run loader (limit + 1) s = run loader limit (step loader s) := by
  simp [run, hn]

/-- A run that ends has something left to do it with as long as anything is due. -/
theorem exists_limit {s : State σ ε} {limit : Nat} (hn : s.agenda ≠ [])
    (hends : (run loader limit s).agenda = []) :
    ∃ limit', limit = limit' + 1 ∧ run loader limit s = run loader limit' (step loader s) := by
  cases limit with
  | zero => exact absurd hends hn
  | succ limit' => exact ⟨limit', rfl, run_step loader hn limit'⟩

include hnow in
/-- A run that ends searches what is on top of the agenda, and goes on with the rest. -/
theorem run_search (limit : Nat) {s : State σ ε} {es : List String} {items rest : List (Item ε)}
    (h : Stacked s) (hagenda : s.agenda = items ++ rest)
    (hitems : items.map Item.duty = es.map .visit) (hends : (run loader limit s).agenda = []) :
    ∃ found limit' s', limit' ≤ limit ∧ run loader limit s = run loader limit' s' ∧ Stacked s' ∧
      Search loader s.seen s.shared es found s'.shared ∧ s'.agenda = rest ∧
      s'.seen = s.seen ++ found.map Prod.fst ∧ s'.graph = extend s.graph found := by
  induction limit using Nat.strong_induction_on generalizing s es items rest with
  | _ limit ih =>
    cases es with
    | nil =>
      obtain rfl : items = [] := List.map_eq_nil_iff.1 hitems
      exact ⟨[], limit, s, le_rfl, rfl, h, .done _ _, hagenda, by simp, by simp⟩
    | cons e es =>
      obtain ⟨⟨round, place, duty⟩, items, rfl, rfl, htail⟩ := List.map_eq_cons_iff.1 hitems
      rw [List.cons_append] at hagenda
      have hdue : s.agenda ≠ [] := hagenda ▸ List.cons_ne_nil _ _
      obtain ⟨limit, rfl, hstep⟩ := exists_limit hdue hends
      by_cases hseen : e ∈ s.seen
      · have hskip : step loader s = { s with agenda := items ++ rest } := by
          obtain ⟨seen, graph, agenda, shared⟩ := s
          obtain rfl : agenda = _ := hagenda
          have hseen' : e ∈ seen := hseen
          simp [step, hseen']
        rw [hstep, hskip] at hends ⊢
        obtain ⟨found, limit', s', hle, hrun, hs', hsearch, hrest⟩ :=
          ih limit (Nat.lt_succ_self limit) (s := { s with agenda := items ++ rest })
            ⟨(List.pairwise_cons.1 (hagenda ▸ h.above)).2, h.keys_seen⟩ rfl htail hends
        exact ⟨found, limit', s', by omega, hrun, hs', .pass hseen hsearch, hrest⟩
      · obtain ⟨hdue', henter⟩ := step_enter hnow h hagenda hseen
        rw [hstep] at hends ⊢
        obtain ⟨limit, rfl, hstep'⟩ := exists_limit hdue' hends
        rw [hstep', henter] at hends ⊢
        -- first what the module depends on is searched, and then the rest of the list
        obtain ⟨inner, limit₁, s₁, hle₁, hrun₁, hs₁, hsearch₁, hagenda₁, hseen₁, hgraph₁⟩ :=
          ih limit (by omega) (h.enter hagenda _ _ _) rfl (map_duty_visits round place _ 0) hends
        rw [hrun₁] at hends ⊢
        obtain ⟨found, limit₂, s₂, hle₂, hrun₂, hs₂, hsearch₂, hagenda₂, hseen₂, hgraph₂⟩ :=
          ih limit₁ (by omega) hs₁ hagenda₁ htail hends
        refine ⟨(e, outcome e (loader e s.shared).1.value) :: (inner ++ found), limit₂, s₂, by omega,
          hrun₂, hs₂, .enter hseen rfl hsearch₁ ?_, hagenda₂, ?_, ?_⟩
        · rw [hseen₁, List.append_assoc] at hsearch₂
          exact hsearch₂
        · rw [hseen₂, hseen₁]
          simp
        · rw [hgraph₂, hgraph₁, ← extend_append, ← extend_append]
          rfl

end WebModules.Exploration

namespace WebModules

open Exploration

/-- Once everything that was begun has ended, the root is the first key unless it has failed, and every
other key comes after one that refers to it.  If nothing has to be waited for, the graph is what a
depth-first search finds, in the order of its first visits: the keys are the modules that could be
read, and the failures are those that could not. -/
theorem resolve_order {σ ε : Type} (loader : Loader σ ε) (root : String) (shared : σ) {limit : Nat}
    (hends : (run loader limit (initial root shared)).agenda = []) :
    let g := (resolve limit loader root shared).1
    (root ∉ g.failures.map Prod.fst → g.entrypoints.head? = some root) ∧
    (∀ before e children after, g.edges = before ++ (e, children) :: after →
      e ≠ root → ∃ p ∈ before, e ∈ p.2) ∧
    ((∀ e s, (loader e s).1.delay = 0) → ∃ found shared',
      Search loader [] shared [root] found shared' ∧
      (∀ found' t, Search loader [] shared [root] found' t → found' = found) ∧
      g = ⟨found.filterMap Finding.edge?, found.filterMap Finding.failure?⟩) := by
  have hdiscovered := run_discovered loader limit (s := initial root shared) (.initial root)
  refine ⟨fun hroot => (hdiscovered.root_first hroot).resolve_left fun hseen => ?_,
    fun before e children after hsplit hne => (hdiscovered.led before e children after hsplit).resolve_left hne,
    fun hnow => ?_⟩
  · have hdue := hdiscovered.root_due hseen
    rw [State.view, hends] at hdue
    cases hdue
  · have hstacked : Stacked (initial root shared : State σ ε) :=
      ⟨List.pairwise_singleton _ _, fun p hp => by cases hp⟩
    obtain ⟨found, limit', s', -, hrun, -, hsearch, hagenda, -, hgraph⟩ :=
      @run_search _ _ _ hnow limit _ [root] _ [] hstacked (List.append_nil _).symm rfl hends
    have hended : run loader limit' s' = s' := by
      cases limit' with
      | zero => rfl
      | succ limit' => simp [run, hagenda]
    refine ⟨found, s'.shared, hsearch, fun found' t hsearch' => (hsearch.unique hsearch').1, ?_⟩
    have hresolved : (resolve limit loader root shared).1 = s'.graph := by
      rw [resolve, hrun, hended]
    rw [hresolved, hgraph]
    simp [extend, initial]

/-- What the first module refers to twice is visited once, and before it what it refers to itself. -/
theorem resolve_order_cycle : ∃ limit,
    (run (fun e => pure ⟨0, cyclicAnswer e⟩) limit (initial "a" ())).agenda = [] ∧
    (resolve limit (fun e => pure ⟨0, cyclicAnswer e⟩) "a" ()).1 =
      ⟨[("a", ["a", "b", "b"]), ("b", ["a", "c"])], [("c", .unavailable ())]⟩ := by
  have hfin : {e | Reachable cyclicAnswer "a" e}.Finite :=
    (List.finite_toSet ["a", "a", "b", "c"]).subset fun e he => reachable_cyclicAnswer he
  obtain ⟨limit, h⟩ := resolve_settled cyclicAnswer "a" hfin
  obtain ⟨hends, -⟩ := (h limit le_rfl).1 Unit (fun e => pure ⟨0, cyclicAnswer e⟩) () fun _ _ => rfl
  obtain ⟨-, -, hsearched⟩ := resolve_order (fun e => pure ⟨0, cyclicAnswer e⟩) "a" () hends
  obtain ⟨found, t, -, hunique, hg⟩ := hsearched fun _ _ => rfl
  have hfresh : "c" ∉ ["a", "b"] ∧ "b" ∉ ["a"] := by decide
  have hc : Search (fun e => pure ⟨0, cyclicAnswer e⟩) ["a", "b"] () ["a", "c"]
      (("c", .error (.unavailable ())) :: ([] ++ [])) () :=
    .pass List.mem_cons_self
      (.enter hfresh.1 (outcome_cyclicAnswer "c") (.done ["a", "b", "c"] ()) (.done _ ()))
  have hb : Search (fun e => pure ⟨0, cyclicAnswer e⟩) ["a"] () ["a", "b", "b"]
      (("b", .ok ["a", "c"]) :: ([("c", .error (.unavailable ()))] ++ [])) () :=
    .pass List.mem_cons_self
      (.enter hfresh.2 (outcome_cyclicAnswer "b") hc (.pass (by simp) (.done _ ())))
  have ha : Search (fun e => pure ⟨0, cyclicAnswer e⟩) [] () ["a"]
      (("a", .ok ["a", "b", "b"]) ::
        ([("b", .ok ["a", "c"]), ("c", .error (.unavailable ()))] ++ [])) () :=
    .enter List.not_mem_nil (outcome_cyclicAnswer "a") hb (.done _ ())
  obtain rfl := hunique _ _ ha
  exact ⟨limit, hends, hg⟩

end WebModules
