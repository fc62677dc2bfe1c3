import WebModules.Proofs.Install.Rules

/-!
Packages that are installed together do not change what is installed for each other.
-/

namespace WebModules

open Exploration Schedule

namespace Settled

variable {ε : Type} {answer : String → Except ε LoadedModule} {root : String} {loaded loaded' : List String}
  {g g' : DependencyGraph ε}

theorem edges_perm (h : Settled answer root loaded g) (h' : Settled answer root loaded' g') : g.edges.Perm g'.edges :=
  (List.perm_ext_iff_of_nodup (.of_map _ h.keys_nodup) (.of_map _ h'.keys_nodup)).2
    fun ⟨e, children⟩ => (h.mem_edges e children).trans (h'.mem_edges e children).symm

theorem lookup_failures_eq (h : Settled answer root loaded g) (h' : Settled answer root loaded' g') (e : String) :
    g.failures.lookup e = g'.failures.lookup e := by
  refine Option.ext fun error => ?_
  rw [lookup_eq_some_iff_mem h.failures_nodup, lookup_eq_some_iff_mem h'.failures_nodup, h.mem_failures,
    h'.mem_failures]

end Settled

namespace Installer

variable (i : Installer) (n : Network)

/-- All that has been found for a request, in some order after the root. -/
def Arranges (request : PackageRequest) (p : ResolvedPackage) : Prop :=
  ∃ ms, i.found n request = .ok { p with modules := ms } ∧ ms.head? = p.modules.head? ∧ ms.Perm p.modules

/-- What becomes of a package if all of its files can be written. -/
def outcome (p : ResolvedPackage) : Except InstallError InstalledPackage :=
  (Pipeline.collect ((distinctFiles p.modules).map fun m =>
    (p.registry.prepared n m.module.entrypoint).map fun _ => m)).map (installed p)

variable {i n} {requests : List PackageRequest} {lasts : Prop}

/-- The order of the edges of a graph is that of the modules, after the root. -/
theorem mappedModules_perm {root : PackageModule} {g g' : DependencyGraph RegistryError} (h : g.edges.Perm g'.edges)
    (describe : String → Option PackageModule) :
    (mappedModules root g (g.entrypoints.filterMap fun e => (describe e).map fun m => (e, m))).Perm
      (mappedModules root g' (g'.entrypoints.filterMap fun e => (describe e).map fun m => (e, m))) := by
  have hlookup (e : String) : (g.entrypoints.filterMap fun e => (describe e).map fun m => (e, m)).lookup e =
      (g'.entrypoints.filterMap fun e => (describe e).map fun m => (e, m)).lookup e := by
    have hmem : e ∈ g.entrypoints ↔ e ∈ g'.entrypoints := (h.map Prod.fst).mem_iff
    rw [lookup_filterMap, lookup_filterMap]
    simp only [hmem]
  unfold mappedModules
  simp only [hlookup]
  exact (h.flatMap_right _).cons _

theorem arranges_of_settled (hr : ∀ r ∈ i.registries, r.client.base.Regular) {request : PackageRequest} {r : Registry}
    {root : PackageModule} (hchosen : i.chosen n request = .ok (r, root)) {loaded : List String}
    {graph : DependencyGraph RegistryError} (hsettled : Settled (r.loaded n) root.entrypoint loaded graph)
    (hroot : graph.failures.lookup root.entrypoint = none) :
    i.Arranges n request ⟨request, r, mappedModules root graph
      (graph.entrypoints.filterMap fun e => (i.described n r root e).map fun m => (e, m))⟩ := by
  obtain ⟨_, hgraph⟩ := Registry.settled_graph (hr r (mem_of_chosen hchosen)) n root.entrypoint
  rw [hsettled.lookup_failures_eq hgraph] at hroot
  refine ⟨i.mapped n r root, ?_, rfl, mappedModules_perm (hgraph.edges_perm hsettled) _⟩
  rw [found_eq, hchosen]
  simp only [hroot]

/-! What holds of the installation of a package at any time -/

/-- A module is to be entered, has been entered, or could not be. -/
inductive Entering (i : Installer) (n : Network) (requests : List PackageRequest) (lasts : Prop) (w : World) (m : MappedModule) :
    Task World (Except InstallError MappedModule) → Prop
  | waiting : Entering i n requests lasts w m (.once (i.persist m))
  | entered (entered : i.Entered n requests lasts w m) : Entering i n requests lasts w m (.done (.ok m))
  | failed {e : InstallError} (files : e.OfFiles) : Entering i n requests lasts w m (.done (.error e))

/-- What the installation of a package has come to depends on the network alone, but for the order of what
has been found, and for files that could not be written. -/
inductive Phase.Sound (i : Installer) (n : Network) (requests : List PackageRequest) (lasts : Prop) (w : World)
    (request : PackageRequest) : Phase → Prop
  | choosing {task : Task World (Except InstallError (Registry × PackageModule))}
      (meets : task.Meets (i.Proper n lasts) (i.Later n requests lasts) (· = i.chosen n request)) :
      Sound i n requests lasts w request (.choosing task)
  | exploring {r : Registry} {root : PackageModule} {s : Exploration.State Traffic RegistryError}
      (chosen : i.chosen n request = .ok (r, root)) (invariant : Invariant (r.loaded n) root.entrypoint s.view) :
      Sound i n requests lasts w request (.exploring r root s)
  | describing {r : Registry} {root : PackageModule} {graph : DependencyGraph RegistryError} {loaded : List String}
      {tasks : List (Task World (Option (String × PackageModule)))} (chosen : i.chosen n request = .ok (r, root))
      (settled : Settled (r.loaded n) root.entrypoint loaded graph)
      (found : graph.failures.lookup root.entrypoint = none)
      (meets : List.Forall₂ (fun e => Task.Meets (i.Proper n lasts) (i.Later n requests lasts)
        (· = (i.described n r root e).map fun m => (e, m))) graph.entrypoints tasks) :
      Sound i n requests lasts w request (.describing r root graph tasks)
  | entering {p : ResolvedPackage} {tasks : List (Task World (Except InstallError MappedModule))}
      (arranges : i.Arranges n request p) (meets : List.Forall₂ (Entering i n requests lasts w) p.modules tasks) :
      Sound i n requests lasts w request (.entering p tasks)
  | writing {p : ResolvedPackage} {tasks : List (Task World (Except InstallError MappedModule))}
      (arranges : i.Arranges n request p) (entered : ∀ m ∈ p.modules, i.Entered n requests lasts w m)
      (meets : List.Forall₂ (fun m => Task.Meets (fun w => i.Proper n lasts w ∧ w.files.Readable i.importMapPath)
        (i.Later n requests lasts) (UnlessFiles ((p.registry.prepared n m.module.entrypoint).map fun _ => m)))
        (distinctFiles p.modules) tasks) :
      Sound i n requests lasts w request (.writing p tasks)
  | missing {e : InstallError} (found : i.found n request = .error e) : Sound i n requests lasts w request (.ended (.error e))
  | failed {e : InstallError} (files : e.OfFiles) : Sound i n requests lasts w request (.ended (.error e))
  | ended {p : ResolvedPackage} (arranges : i.Arranges n request p)
      (entered : ∀ m ∈ p.modules, i.Entered n requests lasts w m) :
      Sound i n requests lasts w request (.ended (outcome n p))

variable {w w' : World} {request : PackageRequest}

theorem Entering.later {m : MappedModule} {task : Task World (Except InstallError MappedModule)}
    (h : Entering i n requests lasts w m task) (hl : i.Later n requests lasts w w') : Entering i n requests lasts w' m task := by
  cases h with
  | waiting => exact .waiting
  | entered entered => exact .entered (entered.later hl)
  | failed files => exact .failed files

theorem Phase.Sound.later {phase : Phase} (h : phase.Sound i n requests lasts w request) (hl : i.Later n requests lasts w w') :
    phase.Sound i n requests lasts w' request := by
  cases h with
  | choosing meets => exact .choosing meets
  | exploring chosen invariant => exact .exploring chosen invariant
  | describing chosen settled found meets => exact .describing chosen settled found meets
  | entering arranges meets => exact .entering arranges (meets.imp fun _ _ hm => hm.later hl)
  | writing arranges entered meets => exact .writing arranges (fun m hm => (entered m hm).later hl) meets
  | missing found => exact .missing found
  | failed files => exact .failed files
  | ended arranges entered => exact .ended arranges fun m hm => (entered m hm).later hl

/-! Results of the modules of a package -/

theorem collect_entering {ms : List MappedModule} {results : List (Except InstallError MappedModule)}
    (h : List.Forall₂ (Entering i n requests lasts w) ms (results.map .done)) :
    (∃ e : InstallError, Pipeline.collect results = .error e ∧ e.OfFiles) ∨
      Pipeline.collect results = .ok ms ∧ ∀ m ∈ ms, i.Entered n requests lasts w m := by
  induction results generalizing ms with
  | nil =>
      cases h
      exact .inr ⟨rfl, by simp⟩
  | cons result results ih =>
      cases h with
      | cons head rest =>
          cases head with
          | failed files => exact .inl ⟨_, rfl, files⟩
          | entered entered =>
              rw [Pipeline.collect]
              rcases ih rest with ⟨e, he, hfiles⟩ | ⟨hms, hentered⟩
              · rw [he]
                exact .inl ⟨e, rfl, hfiles⟩
              · rw [hms]
                exact .inr ⟨rfl, List.forall_mem_cons.2 ⟨entered, hentered⟩⟩

theorem collect_unlessFiles {ms : List MappedModule} {expected : MappedModule → Except InstallError MappedModule}
    {results : List (Except InstallError MappedModule)} (h : List.Forall₂ (fun m => UnlessFiles (expected m)) ms results) :
    UnlessFiles (Pipeline.collect (ms.map expected)) (Pipeline.collect results) := by
  induction h with
  | nil => exact .inl rfl
  | @cons m result ms results head rest ih =>
      rcases head with rfl | ⟨e, rfl, hfiles⟩
      · rw [List.map_cons]
        cases expected m with
        | error e => exact .inl rfl
        | ok m' =>
            rw [Pipeline.collect, Pipeline.collect]
            rcases ih with hsame | ⟨e, he, hfiles⟩
            · exact .inl (by rw [hsame])
            · rw [he]
              exact .inr ⟨e, rfl, hfiles⟩
      · exact .inr ⟨e, rfl, hfiles⟩

theorem Arranges.exists_mem {p : ResolvedPackage} (h : i.Arranges n request p) {m : MappedModule}
    (hm : m ∈ p.modules) : ∃ found, i.found n request = .ok found ∧ m ∈ found.modules := by
  obtain ⟨ms, hfound, -, hperm⟩ := h
  exact ⟨_, hfound, hperm.mem_iff.2 hm⟩

theorem Arranges.knows {p : ResolvedPackage} (h : i.Arranges n request p) {m : MappedModule} (hm : m ∈ p.modules) :
    i.layout.Knows m.module := by
  obtain ⟨found, hfound, hmem⟩ := h.exists_mem hm
  have hfind := (i.gives_find n request .empty (Traffic.faithful_empty n)).1
  exact i.ensures_find n request .empty found (hfind.trans hfound) m hmem

/-! Turns -/

namespace Phase.Sound

variable {item delay : Nat}

theorem start (i : Installer) (n : Network) (requests : List PackageRequest) (lasts : Prop) (w : World) (request : PackageRequest) :
    (Phase.start i n request).Sound i n requests lasts w request :=
  .choosing (meets_choosing (fun _ h => h) request)

theorem turn_choosing {task : Task World (Except InstallError (Registry × PackageModule))} (hw : i.Proper n lasts w)
    (h : task.Meets (i.Proper n lasts) (i.Later n requests lasts) (· = i.chosen n request)) :
    i.Later n requests lasts w ((Phase.choosing task).turn i n request item delay w).2 ∧
      ((Phase.choosing task).turn i n request item delay w).1.Sound i n requests lasts
        ((Phase.choosing task).turn i n request item delay w).2 request := by
  cases h with
  | step keeps rest => exact ⟨keeps w hw, .choosing (rest w hw)⟩
  | @done chosen holds =>
      refine ⟨?_, ?_⟩
      · cases chosen <;> exact hw.later
      · cases chosen with
        | error e =>
            refine .missing ?_
            rw [found_eq, ← holds]
        | ok pair => exact .exploring holds.symm (Invariant.initial _ _)

theorem turn_exploring (hr : ∀ r ∈ i.registries, r.client.base.Regular) {r : Registry} {root : PackageModule}
    {s : Exploration.State Traffic RegistryError} (hw : i.Proper n lasts w) (hchosen : i.chosen n request = .ok (r, root))
    (h : Invariant (r.loaded n) root.entrypoint s.view) :
    i.Later n requests lasts w ((Phase.exploring r root s).turn i n request item delay w).2 ∧
      ((Phase.exploring r root s).turn i n request item delay w).1.Sound i n requests lasts
        ((Phase.exploring r root s).turn i n request item delay w).2 request := by
  rw [Phase.turn]
  by_cases hend : s.agenda = []
  · have hsettled := h.settled (by simp [State.view, hend])
    simp only [hend, List.isEmpty_nil, if_true]
    cases hlookup : s.graph.failures.lookup root.entrypoint with
    | some e =>
        refine ⟨hw.later, .missing ?_⟩
        obtain ⟨_, hgraph⟩ := Registry.settled_graph (hr r (mem_of_chosen hchosen)) n root.entrypoint
        have hsame := hsettled.lookup_failures_eq hgraph root.entrypoint
        rw [found_eq, hchosen]
        simp only [← hsame, State.view, hlookup]
    | none =>
        refine ⟨hw.later, .describing hchosen hsettled hlookup ?_⟩
        exact List.forall₂_map_right_iff.2 (List.forall₂_same.2 fun e _ => meets_describing (fun _ h => h) r root e)
  · have hstep := step_moves (answers_loader n r delay) (s := { s with shared := w.traffic }) hw.faithful hend
    simp only [List.isEmpty_iff, hend, if_false]
    exact ⟨hw.asked hstep.2, .exploring hchosen (hstep.1.invariant h)⟩

theorem turn_describing (hr : ∀ r ∈ i.registries, r.client.base.Regular) {r : Registry} {root : PackageModule}
    {graph : DependencyGraph RegistryError} {loaded : List String} {tasks : List (Task World (Option (String × PackageModule)))}
    (hw : i.Proper n lasts w) (hchosen : i.chosen n request = .ok (r, root))
    (hsettled : Settled (r.loaded n) root.entrypoint loaded graph)
    (hroot : graph.failures.lookup root.entrypoint = none)
    (h : List.Forall₂ (fun e => Task.Meets (i.Proper n lasts) (i.Later n requests lasts)
      (· = (i.described n r root e).map fun m => (e, m))) graph.entrypoints tasks) :
    i.Later n requests lasts w ((Phase.describing r root graph tasks).turn i n request item delay w).2 ∧
      ((Phase.describing r root graph tasks).turn i n request item delay w).1.Sound i n requests lasts
        ((Phase.describing r root graph tasks).turn i n request item delay w).2 request := by
  rw [Phase.turn]
  cases hresults : Task.results? tasks with
  | none =>
      obtain ⟨hlater, hmeets⟩ := Task.meets_turn (fun _ => hw) hw.later h item
      exact ⟨hlater, .describing hchosen hsettled hroot hmeets⟩
  | some described =>
      rw [Task.eq_map_of_results? hresults, List.forall₂_map_right_iff] at h
      have hdescribed : graph.entrypoints.map (fun e => (i.described n r root e).map fun m => (e, m)) = described := by
        rw [← List.forall₂_eq_eq_eq, List.forall₂_map_left_iff]
        exact h.imp fun e found hmeets => hmeets.result.symm
      have hfilter : described.filterMap id =
          graph.entrypoints.filterMap fun e => (i.described n r root e).map fun m => (e, m) := by
        rw [← hdescribed, List.filterMap_map]
        rfl
      have harranges := arranges_of_settled hr hchosen hsettled hroot
      rw [← hfilter] at harranges
      exact ⟨hw.later, .entering harranges (List.forall₂_map_right_iff.2 (List.forall₂_same.2 fun m _ => .waiting))⟩

theorem turn_entering {p : ResolvedPackage} {tasks : List (Task World (Except InstallError MappedModule))}
    (hw : i.Proper n lasts w) (hrequest : request ∈ requests) (harranges : i.Arranges n request p)
    (h : List.Forall₂ (Entering i n requests lasts w) p.modules tasks) :
    i.Later n requests lasts w ((Phase.entering p tasks).turn i n request item delay w).2 ∧
      ((Phase.entering p tasks).turn i n request item delay w).1.Sound i n requests lasts
        ((Phase.entering p tasks).turn i n request item delay w).2 request := by
  rw [Phase.turn]
  cases hresults : Task.results? tasks with
  | none =>
      -- one more module is entered, by the only step that its task has
      have hstep (m : MappedModule) (hm : m ∈ p.modules) (change : World → World)
          (next : World → Task World (Except InstallError MappedModule))
          (hentering : Entering i n requests lasts w m (.step change next)) :
          i.Later n requests lasts w (change w) ∧ Entering i n requests lasts (change w) m (next w) := by
        obtain ⟨found, hfound, hmem⟩ := harranges.exists_mem hm
        obtain ⟨hlater, hpersisted⟩ := hw.persisted hrequest hfound hmem
        generalize htask : Task.step change next = task at hentering
        cases hentering with
        | waiting =>
            obtain ⟨rfl, rfl⟩ := Task.step.inj htask
            dsimp only
            rcases hpersisted with ⟨hok, hentered⟩ | ⟨e, he, hfiles⟩
            · rw [hok]
              exact ⟨hlater, .entered hentered⟩
            · rw [he]
              exact ⟨hlater, .failed hfiles⟩
        | entered => cases htask
        | failed => cases htask
      obtain ⟨hlater, hmeets⟩ := Task.forall₂_turn (S := i.Later n requests lasts) (R := Entering i n requests lasts) hw.later
        (fun _ _ _ hlater hm => hm.later hlater) hstep h item
      exact ⟨hlater, .entering harranges hmeets⟩
  | some results =>
      rw [Task.eq_map_of_results? hresults] at h
      simp only [Phase.afterEntering]
      rcases collect_entering h with ⟨e, he, hfiles⟩ | ⟨hms, hentered⟩
      · rw [he]
        exact ⟨hw.later, .failed hfiles⟩
      · rw [hms]
        refine ⟨hw.later, .writing harranges hentered ?_⟩
        exact List.forall₂_map_right_iff.2 (List.forall₂_same.2 fun m hm =>
          meets_downloading p.registry (harranges.knows (mem_of_mem_distinctFiles hm)))

theorem turn_writing {p : ResolvedPackage} {tasks : List (Task World (Except InstallError MappedModule))}
    (hw : i.Proper n lasts w) (harranges : i.Arranges n request p) (hentered : ∀ m ∈ p.modules, i.Entered n requests lasts w m)
    (h : List.Forall₂ (fun m => Task.Meets (fun w => i.Proper n lasts w ∧ w.files.Readable i.importMapPath)
      (i.Later n requests lasts) (UnlessFiles ((p.registry.prepared n m.module.entrypoint).map fun _ => m)))
      (distinctFiles p.modules) tasks) :
    i.Later n requests lasts w ((Phase.writing p tasks).turn i n request item delay w).2 ∧
      ((Phase.writing p tasks).turn i n request item delay w).1.Sound i n requests lasts
        ((Phase.writing p tasks).turn i n request item delay w).2 request := by
  rw [Phase.turn]
  cases hresults : Task.results? tasks with
  | none =>
      have hreadable (hne : distinctFiles p.modules ≠ []) : i.Proper n lasts w ∧ w.files.Readable i.importMapPath := by
        obtain ⟨m, hm⟩ := List.exists_mem_of_ne_nil _ hne
        exact ⟨hw, (hentered m (mem_of_mem_distinctFiles hm)).readable⟩
      obtain ⟨hlater, hmeets⟩ := Task.meets_turn
        (I := fun w => i.Proper n lasts w ∧ w.files.Readable i.importMapPath) hreadable hw.later h item
      exact ⟨hlater, .writing harranges (fun m hm => (hentered m hm).later hlater) hmeets⟩
  | some results =>
      rw [Task.eq_map_of_results? hresults, List.forall₂_map_right_iff] at h
      simp only [Phase.afterWriting]
      rcases collect_unlessFiles (h.imp fun _ _ hm => hm.result) with hsame | ⟨e, he, hfiles⟩
      · rw [hsame]
        exact ⟨hw.later, .ended harranges hentered⟩
      · rw [he]
        exact ⟨hw.later, .failed hfiles⟩

/-- A turn of a package keeps to the rules, and the package comes to what it is to come to. -/
theorem turn (hr : ∀ r ∈ i.registries, r.client.base.Regular) {phase : Phase} (hw : i.Proper n lasts w)
    (hrequest : request ∈ requests) (h : phase.Sound i n requests lasts w request) :
    i.Later n requests lasts w (phase.turn i n request item delay w).2 ∧
      (phase.turn i n request item delay w).1.Sound i n requests lasts (phase.turn i n request item delay w).2 request := by
  cases h with
  | choosing meets => exact turn_choosing hw meets
  | exploring chosen invariant => exact turn_exploring hr hw chosen invariant
  | describing chosen settled found meets => exact turn_describing hr hw chosen settled found meets
  | entering arranges meets => exact turn_entering hw hrequest arranges meets
  | writing arranges entered meets => exact turn_writing hw arranges entered meets
  | missing found => exact ⟨hw.later, .missing found⟩
  | failed files => exact ⟨hw.later, .failed files⟩
  | ended arranges entered => exact ⟨hw.later, .ended arranges entered⟩

end Phase.Sound

/-! Ends -/

namespace Phase

variable (i n request)

theorem ends_writing (p : ResolvedPackage) (tasks : List (Task World (Except InstallError MappedModule))) (w : World) :
    ∃ outcome w', Leads i n request (writing p tasks, w) (ended outcome, w') := by
  have htasks := leads_tasks i n request (writing p) (fun tasks item w hnone => by simp [turn, hnone]) tasks w
  refine ⟨(Pipeline.collect (tasks.mapM Task.alone w).1).map (installed p), (tasks.mapM Task.alone w).2,
    htasks.tail ⟨0, 0, ?_⟩⟩
  simp only [turn, Task.results?_done, afterWriting]

theorem ends_entering (p : ResolvedPackage) (tasks : List (Task World (Except InstallError MappedModule))) (w : World) :
    ∃ outcome w', Leads i n request (entering p tasks, w) (ended outcome, w') := by
  have htasks := leads_tasks i n request (entering p) (fun tasks item w hnone => by simp [turn, hnone]) tasks w
  cases hcollect : Pipeline.collect (tasks.mapM Task.alone w).1 with
  | error e =>
      refine ⟨.error e, (tasks.mapM Task.alone w).2, htasks.tail ⟨0, 0, ?_⟩⟩
      simp only [turn, Task.results?_done, afterEntering, hcollect]
  | ok ms =>
      obtain ⟨outcome, w', hrest⟩ := ends_writing i n request { p with modules := ms }
        ((distinctFiles ms).map (downloading n p.registry)) (tasks.mapM Task.alone w).2
      refine ⟨outcome, w', (htasks.tail ⟨0, 0, ?_⟩).trans hrest⟩
      simp only [turn, Task.results?_done, afterEntering, hcollect, write]

theorem ends_describing (r : Registry) (root : PackageModule) (graph : DependencyGraph RegistryError)
    (tasks : List (Task World (Option (String × PackageModule)))) (w : World) :
    ∃ outcome w', Leads i n request (describing r root graph tasks, w) (ended outcome, w') := by
  have htasks := leads_tasks i n request (describing r root graph) (fun tasks item w hnone => by simp [turn, hnone])
    tasks w
  let p : ResolvedPackage :=
    ⟨request, r, mappedModules root graph ((tasks.mapM Task.alone w).1.filterMap id)⟩
  obtain ⟨outcome, w', hrest⟩ := ends_entering i n request p (p.modules.map fun m => .once (i.persist m))
    (tasks.mapM Task.alone w).2
  refine ⟨outcome, w', (htasks.tail ⟨0, 0, ?_⟩).trans hrest⟩
  simp only [turn, Task.results?_done, afterDescribing, enter, p]

variable {i n request}

/-- An exploration that goes on alone finds all that is left to be found. -/
theorem leads_explored (hr : ∀ r ∈ i.registries, r.client.base.Regular) {r : Registry} {root : PackageModule}
    (hchosen : i.chosen n request = .ok (r, root)) {s : Exploration.State Traffic RegistryError}
    (h : Invariant (r.loaded n) root.entrypoint s.view) {w : World} (hw : w.traffic.Faithful n)
    (hs : s.shared = w.traffic) : ∃ s' w', s'.agenda = [] ∧
      Leads i n request (exploring r root s, w) (exploring r root s', w') := by
  have hwithin := r.within_entries (hr r (mem_of_chosen hchosen)) n
  obtain ⟨limit, hend⟩ := exists_run_ends (answers_loader n r 0) (fun _ => hwithin.reachable) (hs ▸ hw) h
  exact ⟨_, _, hend, leads_exploring i n request r root limit s w hs⟩

theorem ends_exploring (hr : ∀ r ∈ i.registries, r.client.base.Regular) {r : Registry} {root : PackageModule}
    (hchosen : i.chosen n request = .ok (r, root)) {s : Exploration.State Traffic RegistryError}
    (h : Invariant (r.loaded n) root.entrypoint s.view) {w : World} (hw : i.Proper n lasts w) :
    ∃ outcome w', Leads i n request (exploring r root s, w) (ended outcome, w') := by
  have hfinish (s : Exploration.State Traffic RegistryError) (w : World) (hend : s.agenda = []) :
      ∃ outcome w', Leads i n request (exploring r root s, w) (ended outcome, w') := by
    cases hroot : s.graph.failures.lookup root.entrypoint with
    | some e =>
        refine ⟨.error (.resolve root.entrypoint e), w, .single ⟨0, 0, ?_⟩⟩
        simp only [turn, hend, List.isEmpty_nil, if_true, hroot]
    | none =>
        obtain ⟨outcome, w', hrest⟩ := ends_describing i n request r root s.graph
          (s.graph.entrypoints.map (i.describing n r root)) w
        refine ⟨outcome, w', .head ⟨0, 0, ?_⟩ hrest⟩
        simp only [turn, hend, List.isEmpty_nil, if_true, hroot]
  by_cases hend : s.agenda = []
  · exact hfinish s w hend
  · -- The first turn brings the exploration up to date with what all have requested meanwhile.
    have hturn : (exploring r root s).turn i n request 0 0 w =
        (exploring r root (step (loader n r 0) { s with shared := w.traffic }),
          { w with traffic := (step (loader n r 0) { s with shared := w.traffic }).shared }) := by
      simp [turn, hend]
    obtain ⟨hmoves, hkept⟩ := step_moves (answers_loader n r 0) (s := { s with shared := w.traffic }) hw.faithful hend
    obtain ⟨s', w', hend', hleads⟩ := leads_explored hr hchosen (hmoves.invariant h)
      (w := { w with traffic := (step (loader n r 0) { s with shared := w.traffic }).shared }) hkept rfl
    obtain ⟨outcome, w'', hrest⟩ := hfinish s' w' hend'
    exact ⟨outcome, w'', .head ⟨0, 0, hturn.symm⟩ (hleads.trans hrest)⟩

theorem Sound.leads (hr : ∀ r ∈ i.registries, r.client.base.Regular) (hrequest : request ∈ requests)
    {before after : Phase × World} (hleads : Leads i n request before after) (hw : i.Proper n lasts before.2)
    (h : before.1.Sound i n requests lasts before.2 request) :
    i.Later n requests lasts before.2 after.2 ∧ after.1.Sound i n requests lasts after.2 request := by
  induction hleads with
  | refl => exact ⟨hw.later, h⟩
  | tail _ last ih =>
      obtain ⟨hlater, hsound⟩ := ih
      obtain ⟨item, delay, rfl⟩ := last
      obtain ⟨hlater', hsound'⟩ := @Sound.turn i n requests lasts _ request item delay hr _ hlater.proper hrequest hsound
      exact ⟨hlater.trans hlater', hsound'⟩

/-- Wherever its installation is, a package comes to an end if it is worked on. -/
theorem Sound.ends (hr : ∀ r ∈ i.registries, r.client.base.Regular) (hrequest : request ∈ requests) {phase : Phase}
    {w : World} (hw : i.Proper n lasts w) (h : phase.Sound i n requests lasts w request) :
    ∃ outcome w', Leads i n request (phase, w) (.ended outcome, w') := by
  cases h with
  | @choosing task meets =>
      have hchoosing := leads_choosing i n request task w
      obtain ⟨hlater, hsound⟩ := Sound.leads hr hrequest hchoosing hw (.choosing meets)
      cases hchosen : (task.alone w).1 with
      | error e =>
          rw [hchosen] at hchoosing
          exact ⟨.error e, _, hchoosing.tail ⟨0, 0, rfl⟩⟩
      | ok pair =>
          obtain ⟨r, root⟩ := pair
          rw [hchosen] at hchoosing hsound
          generalize hphase : Phase.choosing _ = phase at hsound
          cases hsound with
          | choosing meets =>
              obtain rfl := choosing.inj hphase
              obtain ⟨outcome, w', hrest⟩ := ends_exploring hr meets.result.symm
                (s := Exploration.initial root.entrypoint (task.alone w).2.traffic) (Invariant.initial _ _) hlater.proper
              exact ⟨outcome, w', (hchoosing.tail ⟨0, 0, rfl⟩).trans hrest⟩
          | _ => cases hphase
  | exploring chosen invariant => exact ends_exploring hr chosen invariant hw
  | describing => exact ends_describing i n request _ _ _ _ w
  | entering => exact ends_entering i n request _ _ w
  | writing => exact ends_writing i n request _ _ w
  | @missing e => exact ⟨.error e, w, .refl⟩
  | @failed e => exact ⟨.error e, w, .refl⟩
  | @ended p => exact ⟨Installer.outcome n p, w, .refl⟩

end Phase

/-! Batches -/

/-- All packages of a batch have come to what they are to come to. -/
structure Batch.Sound (i : Installer) (n : Network) (requests : List PackageRequest) (lasts : Prop) (b : Batch) : Prop where
  proper : i.Proper n lasts b.world
  requests_eq : b.packages.map Prod.fst = requests
  sound : ∀ x ∈ b.packages, x.2.Sound i n requests lasts b.world x.1

theorem Batch.Sound.start (hw : i.Proper n lasts w) : (Batch.start i n requests w).Sound i n requests lasts := by
  refine ⟨hw, ?_, fun x hx => ?_⟩
  · rw [Batch.start, List.map_map]
    exact List.map_id _
  · obtain ⟨request, -, rfl⟩ := List.mem_map.1 hx
    exact .start i n requests lasts w request

theorem Batch.Sound.turn (hr : ∀ r ∈ i.registries, r.client.base.Regular) {b : Batch} (h : b.Sound i n requests lasts)
    (t : Turn) : (b.turn i n t).Sound i n requests lasts := by
  rw [Batch.turn]
  cases hpackage : b.packages[t.package]? with
  | none => exact h
  | some x =>
      obtain ⟨request, phase⟩ := x
      have hmem := List.mem_of_getElem? hpackage
      have hrequest : request ∈ requests := h.requests_eq ▸ List.mem_map_of_mem (f := Prod.fst) hmem
      obtain ⟨hlater, hsound⟩ := (h.sound _ hmem).turn hr h.proper hrequest
      refine ⟨hlater.proper, ?_, fun x hx => ?_⟩
      · obtain ⟨hplace, hget⟩ := List.getElem?_eq_some_iff.1 hpackage
        have hsame : request = (b.packages.map Prod.fst).get ⟨t.package, by simpa using hplace⟩ := by
          rw [List.get_eq_getElem, List.getElem_map, hget]
        rw [← h.requests_eq, List.map_set]
        dsimp only
        rw [hsame, List.get_eq_getElem, List.set_getElem_self]
      · rcases List.mem_or_eq_of_mem_set hx with hx | rfl
        · exact (h.sound x hx).later hlater
        · exact hsound

theorem Batch.Sound.turns (hr : ∀ r ∈ i.registries, r.client.base.Regular) {b : Batch} (h : b.Sound i n requests lasts)
    (schedule : List Turn) : (b.turns i n schedule).Sound i n requests lasts := by
  induction schedule generalizing b with
  | nil => exact h
  | cons t schedule ih => exact ih (h.turn hr t)

end Installer

end WebModules
