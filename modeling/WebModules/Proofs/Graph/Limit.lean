import WebModules.Proofs.Graph.Exploration

/-!
How many steps are enough when the texts of all modules are known, and what becomes of explorations
whose loaders give the same modules at the same times.
-/

namespace WebModules.Exploration

open Script Schedule

variable {σ τ ε : Type} {answer : String → Except ε LoadedModule} {root : String}

/-- The entrypoints that a text refers to from some places. -/
def references (entry : String × List String) : List String :=
  entry.2.flatMap fun location =>
    ((detect entry.1).toOption.getD []).map (Specifier.join location)

theorem length_references (entry : String × List String) :
    (references entry).length = specifierCount entry.1 * entry.2.length := by
  simp [references, List.length_flatMap, specifierCount, Nat.mul_comm]

/-- Each module that depends on anything has one of the texts, in one of the places given for it. -/
def Within (answer : String → Except ε LoadedModule) (entries : List (String × List String)) : Prop :=
  ∀ e m, answer e = .ok m → specifierCount m.source ≠ 0 →
    ∃ entry ∈ entries, entry.1 = m.source ∧ m.location ∈ entry.2

theorem Within.children {entries : List (String × List String)} (h : Within answer entries) {e : String}
    {children : List String} (hc : outcome e (answer e) = .ok children) (hn : children ≠ []) :
    ∃ entry ∈ entries, children.length = specifierCount entry.1 ∧ entry.2 ≠ [] ∧
      ∀ c ∈ children, c ∈ references entry := by
  obtain ⟨m, specifiers, hm, hd, rfl⟩ := outcome_eq_ok_iff.1 hc
  have hcount : specifierCount m.source = specifiers.length := by
    simp [specifierCount, hd, Except.toOption]
  have hne : specifiers ≠ [] := fun hs => hn (by rw [hs, List.map_nil])
  obtain ⟨entry, hentry, hsource, hlocation⟩ := h e m hm (by simpa [hcount] using hne)
  refine ⟨entry, hentry, by rw [List.length_map, hsource, hcount], List.ne_nil_of_mem hlocation, ?_⟩
  intro c hmem
  refine List.mem_flatMap.2 ⟨m.location, hlocation, ?_⟩
  simpa [hsource, hd, Except.toOption] using hmem

theorem Within.reachable {entries : List (String × List String)} (h : Within answer entries) {e : String}
    (he : Reachable answer root e) : e ∈ root :: entries.flatMap references := by
  induction he with
  | root => exact List.mem_cons_self
  | child parent found mem ih =>
      obtain ⟨entry, hentry, -, -, hall⟩ := h.children found (List.ne_nil_of_mem mem)
      exact List.mem_cons_of_mem _ (List.mem_flatMap.2 ⟨entry, hentry, hall _ mem⟩)

theorem length_flatMap_references {entries : List (String × List String)} {locations : Nat}
    (hl : ∀ entry ∈ entries, entry.2.length ≤ locations) :
    (entries.flatMap references).length ≤
      ((entries.map Prod.fst).map specifierCount).sum * locations := by
  induction entries with
  | nil => simp
  | cons entry entries ih =>
      have htail := ih fun next hnext => hl next (List.mem_cons_of_mem _ hnext)
      have hhead := Nat.mul_le_mul_left (specifierCount entry.1) (hl entry List.mem_cons_self)
      rw [List.flatMap_cons, List.length_append, length_references, List.map_cons, List.map_cons,
        List.sum_cons, Nat.add_mul]
      omega

theorem foldr_specifierCount (texts : List String) :
    texts.foldr (fun text count => specifierCount text + count) 0 = (texts.map specifierCount).sum := by
  rw [List.sum_eq_foldr, List.foldr_map]

/-- The known number of steps is more than the modules that can be reached give rise to. -/
theorem Within.cost_lt {entries : List (String × List String)} (h : Within answer entries)
    {locations : Nat} (hl : ∀ entry ∈ entries, entry.2.length ≤ locations) :
    cost answer (root :: entries.flatMap references) <
      limitFor (entries.map Prod.fst) locations := by
  have hlength := length_flatMap_references hl
  have hbranches (e : String) : branches answer e + 1 ≤
      ((entries.map Prod.fst).map specifierCount).sum * locations + 1 := by
    unfold branches
    split
    · rename_i children hchildren
      by_cases hn : children = []
      · simp [hn]
      · obtain ⟨entry, hentry, hcount, hplaces, -⟩ := h.children hchildren hn
        have hmem : specifierCount entry.1 ∈ (entries.map Prod.fst).map specifierCount :=
          List.mem_map_of_mem (List.mem_map_of_mem hentry)
        have hsum := List.le_sum_of_mem hmem
        have hpositive : 0 < locations :=
          Nat.lt_of_lt_of_le (List.length_pos_iff.2 hplaces) (hl entry hentry)
        have := Nat.le_mul_of_pos_right ((entries.map Prod.fst).map specifierCount).sum hpositive
        omega
    · omega
  generalize hsize : ((entries.map Prod.fst).map specifierCount).sum * locations + 1 = size at hbranches
  have hcost : cost answer (root :: entries.flatMap references) ≤
      (root :: entries.flatMap references).length * size := by
    simpa [cost] using List.sum_le_card_nsmul
      ((root :: entries.flatMap references).map fun e => branches answer e + 1) size
      fun x hx => by
        obtain ⟨e, -, rfl⟩ := List.mem_map.1 hx
        exact hbranches e
  have hmul : (root :: entries.flatMap references).length * size ≤ size * size := by
    refine Nat.mul_le_mul_right size ?_
    rw [List.length_cons]
    omega
  rw [limitFor, foldr_specifierCount, hsize]
  omega

/-! Loaders that share nothing -/

/-- The loader that gives answers after fixed times. -/
def timedLoader (timed : String → Timed (Except ε LoadedModule)) : Loader Unit ε := fun e => pure (timed e)

/-- A state without what is shared. -/
def State.alone (s : State σ ε) : State Unit ε := ⟨s.seen, s.graph, s.agenda, ()⟩

variable {loader : Loader σ ε} {kept : σ → Prop} {timed : String → Timed (Except ε LoadedModule)}

theorem step_alone (hv : ∀ e s, kept s → (loader e s).1 = timed e)
    (hk : ∀ e s, kept s → kept (loader e s).2) {s : State σ ε} (hs : kept s.shared) :
    (step loader s).alone = step (timedLoader timed) s.alone ∧ kept (step loader s).shared := by
  obtain ⟨seen, graph, agenda, shared⟩ := s
  match agenda with
  | [] => exact ⟨rfl, hs⟩
  | ⟨round, place, .visit e⟩ :: agenda =>
    by_cases hseen : e ∈ seen
    · simp [step, State.alone, hseen, hs]
    · have hvalue := hv e shared hs
      have hkept := hk e shared hs
      have htimed : timedLoader timed e () = (timed e, ()) := rfl
      cases hl : loader e shared with
      | mk loaded after =>
          rw [hl] at hvalue hkept
          simp only [step, State.alone, List.contains_eq_mem, hseen, decide_false, Bool.false_eq_true,
            if_false, hl, htimed, ← hvalue]
          exact ⟨trivial, hkept⟩
  | ⟨round, place, .follow e loaded⟩ :: agenda =>
    cases ho : outcome e loaded with
    | error x => simp [step, State.alone, ho, hs]
    | ok children => simp [step, State.alone, ho, hs]

/-- Whatever its loader shares, an exploration takes the steps that the answers alone lead to. -/
theorem run_alone (hv : ∀ e s, kept s → (loader e s).1 = timed e)
    (hk : ∀ e s, kept s → kept (loader e s).2) (limit : Nat) {s : State σ ε} (hs : kept s.shared) :
    (run loader limit s).alone = run (timedLoader timed) limit s.alone ∧
      kept (run loader limit s).shared := by
  induction limit generalizing s with
  | zero => exact ⟨rfl, hs⟩
  | succ limit ih =>
      obtain ⟨hstep, hkept⟩ := step_alone hv hk hs
      obtain ⟨hrun, hshared⟩ := ih hkept
      by_cases hn : s.agenda.isEmpty
      · have hn' : s.alone.agenda.isEmpty := hn
        simp [run, hn, hn', hs]
      · have hn' : ¬ s.alone.agenda.isEmpty := hn
        simp only [run, hn, hn', Bool.false_eq_true, if_false, hrun, hstep, hshared, and_self]

end WebModules.Exploration
