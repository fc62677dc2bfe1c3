import WebModules.Proofs.Install.Batch

/-!
To install packages stage after stage, one package after the other, is one of the ways in which they can
be installed together.
-/

namespace WebModules

open Exploration Schedule

theorem World.onTraffic_eq_bind {α β : Type} (work : StateM Traffic α) (next : α → StateM Traffic β) :
    World.onTraffic (work >>= next) = World.onTraffic work >>= fun a => World.onTraffic (next a) := rfl

theorem World.onTraffic_mapM {α β : Type} (work : α → StateM Traffic β) (items : List α) :
    World.onTraffic (items.mapM work) = items.mapM fun item => World.onTraffic (work item) := by
  induction items with
  | nil => rfl
  | cons item items ih =>
      rw [List.mapM_cons, List.mapM_cons, ← ih]
      rfl

theorem zip_self {α : Type} (items : List α) : items.zip items = items.map fun item => (item, item) := by
  simpa using List.zip_map' (f := id) (g := id) (l := items)

namespace Installer

variable {i : Installer} {n : Network}

/-! What tasks come to that no one interrupts -/

theorem alone_asking {α : Type} (work : StateM Traffic α) : (asking work).alone = World.onTraffic work := rfl

theorem alone_asking_bind {α β : Type} (work : StateM Traffic α) (next : α → Task World β) :
    (asking work >>= next).alone = World.onTraffic work >>= fun a => (next a).alone := Task.alone_bind _ _

theorem alone_choosingRegistry (n : Network) (request : PackageRequest) (rs : List Registry) :
    (choosingRegistry n request rs).alone = World.onTraffic (findRegistry n request rs) := by
  induction rs with
  | nil => rfl
  | cons r rs ih =>
      rw [choosingRegistry, findRegistry, alone_asking_bind, World.onTraffic_eq_bind]
      refine congrArg _ (funext fun has => ?_)
      cases has with
      | true => rfl
      | false => exact ih

/-- Chooses a registry and finds its version of a package. -/
def choose (i : Installer) (n : Network) (request : PackageRequest) :
    StateM Traffic (Except InstallError (Registry × PackageModule)) := do
  match ← findRegistry n request i.registries with
  | none => return .error (.registry (.notFound request.text))
  | some r =>
    match ← r.version n request.name request.target request.version with
    | .error e => return .error (.registry e)
    | .ok version => return .ok (r, i.rootOf r request version)

/-- The registry of a package and the module that is asked for. -/
def chosen (i : Installer) (n : Network) (request : PackageRequest) : Except InstallError (Registry × PackageModule) :=
  match i.registries.find? fun r => r.offers n request.name request.target request.version with
  | none => .error (.registry (.notFound request.text))
  | some r =>
    match r.offered n request.name request.target request.version with
    | .error e => .error (.registry e)
    | .ok version => .ok (r, i.rootOf r request version)

theorem gives_choose (i : Installer) (n : Network) (request : PackageRequest) :
    Gives n (i.choose n request) (i.chosen n request) := by
  unfold choose chosen
  refine (gives_findRegistry n request i.registries).bind ?_
  cases i.registries.find? fun r => r.offers n request.name request.target request.version with
  | none => exact .pure n _
  | some r =>
      dsimp only
      refine (r.gives_version n _ _ _).bind ?_
      cases r.offered n request.name request.target request.version <;> exact .pure n _

theorem found_eq (i : Installer) (n : Network) (request : PackageRequest) : i.found n request =
    match i.chosen n request with
    | .error e => .error e
    | .ok (r, root) =>
      match (r.graph n root.entrypoint).failures.lookup root.entrypoint with
      | some e => .error (.resolve root.entrypoint e)
      | none => .ok ⟨request, r, i.mapped n r root⟩ := by
  unfold found chosen
  cases i.registries.find? fun r => r.offers n request.name request.target request.version with
  | none => rfl
  | some r =>
      dsimp only
      cases r.offered n request.name request.target request.version <;> rfl

/-- Only registries of the project are chosen. -/
theorem mem_of_chosen {request : PackageRequest} {r : Registry} {root : PackageModule}
    (h : i.chosen n request = .ok (r, root)) : r ∈ i.registries := by
  unfold chosen at h
  cases hr : i.registries.find? fun r => r.offers n request.name request.target request.version with
  | none => simp [hr] at h
  | some first =>
      simp only [hr] at h
      split at h
      · cases h
      · cases h
        exact List.mem_of_find?_eq_some hr

theorem answers_loader (n : Network) (r : Registry) (delay : Nat) :
    Answers (loader n r delay) (Traffic.Faithful n) (r.loaded n) := by
  have hload (e : String) : Gives n (loader n r delay e) ⟨delay, r.loaded n e⟩ :=
    (r.gives_load n e).bind (.pure n _)
  exact ⟨fun e t ht => congrArg Timed.value (hload e t ht).1, fun e t ht => (hload e t ht).2⟩

theorem alone_choosing (request : PackageRequest) :
    (i.choosing n request).alone = World.onTraffic (i.choose n request) := by
  rw [choosing, choose, Task.alone_bind, alone_choosingRegistry, World.onTraffic_eq_bind]
  refine congrArg _ (funext fun found => ?_)
  cases found with
  | none => rfl
  | some r =>
      dsimp only
      rw [alone_asking_bind, World.onTraffic_eq_bind]
      refine congrArg _ (funext fun version => ?_)
      cases version <;> rfl

/-- What is found for a request, once the registry and the version are chosen. -/
theorem find_eq_bind (request : PackageRequest) : i.find n request = do
    match ← i.choose n request with
    | .error e => return .error e
    | .ok (r, root) =>
      match ← graphOf n r root.entrypoint with
      | .error e => return .error e
      | .ok graph => return .ok ⟨request, r, ← i.modulesOf n r root graph⟩ := by
  rw [find, choose, bind_assoc]
  refine congrArg _ (funext fun found => ?_)
  cases found with
  | none => rfl
  | some r =>
      dsimp only
      rw [bind_assoc]
      refine congrArg _ (funext fun version => ?_)
      cases version with
      | error e => rfl
      | ok version =>
          rw [pure_bind]
          rfl

section

variable {request : PackageRequest} {r : Registry} {root : PackageModule} {t t' t'' : Traffic}

theorem find_of_choose_error {e : InstallError} (hchoose : i.choose n request t = (.error e, t')) :
    i.find n request t = (.error e, t') := by
  rw [find_eq_bind]
  change StateT.bind _ _ t = _
  simp only [StateT.bind, hchoose]
  rfl

theorem find_of_graph_error {e : InstallError} (hchoose : i.choose n request t = (.ok (r, root), t'))
    (hgraph : graphOf n r root.entrypoint t' = (.error e, t'')) : i.find n request t = (.error e, t'') := by
  rw [find_eq_bind]
  change StateT.bind _ _ t = _
  simp only [StateT.bind, hchoose, bind, hgraph]
  rfl

theorem find_of_graph {graph : DependencyGraph RegistryError} (hchoose : i.choose n request t = (.ok (r, root), t'))
    (hgraph : graphOf n r root.entrypoint t' = (.ok graph, t'')) :
    i.find n request t =
      (.ok ⟨request, r, (i.modulesOf n r root graph t'').1⟩, (i.modulesOf n r root graph t'').2) := by
  rw [find_eq_bind]
  change StateT.bind _ _ t = _
  simp only [StateT.bind, hchoose, bind, hgraph]
  rfl

end

theorem alone_preparing (r : Registry) (entrypoint : String) :
    (preparing n r entrypoint).alone = World.onTraffic (prepareText n r entrypoint) := by
  rw [preparing, prepareText, alone_asking_bind, World.onTraffic_eq_bind]
  refine congrArg _ (funext fun loaded => ?_)
  cases loaded with
  | error e => rfl
  | ok loaded =>
      dsimp only
      unfold rewriteFinding
      cases Script.walk loaded.source with
      | error e => rfl
      | ok records =>
          dsimp only
          cases Rewrite.plan records with
          | error e => rfl
          | ok ds =>
              dsimp only
              simp only [Task.alone_bind, Task.alone_mapM, alone_asking, bind_assoc, pure_bind, World.onTraffic_eq_bind,
                World.onTraffic_mapM]
              rfl

theorem alone_downloading (r : Registry) (m : MappedModule) : (downloading n r m).alone = download n r m := by
  rw [downloading, download, Task.alone_bind, alone_preparing]
  refine congrArg _ (funext fun prepared => ?_)
  cases prepared with
  | error e => rfl
  | ok text =>
      dsimp only
      rw [Task.alone_bind, Task.alone_once]
      funext w
      rw [World.onFiles_bind, World.onFiles_bind, writeModule]
      cases w.files.makeDirectories m.module.storage.dir with
      | mk made files =>
          cases made with
          | error e => rfl
          | ok u =>
              dsimp only
              rw [Task.alone_bind, Task.alone_once, World.onFiles_bind]
              dsimp only
              cases files.write m.module.storage.path text <;> rfl

theorem graphOf_of_lookup {r : Registry} {entrypoint : String} {t : Traffic} {s : Exploration.State Traffic RegistryError}
    {failure : Option (ResolveError RegistryError)} (hs : run (loader n r 0) (limitFor n.texts n.locations) (initial entrypoint t) = s)
    (hfailure : s.graph.failures.lookup entrypoint = failure) :
    graphOf n r entrypoint t = (failure.elim
      (.ok { s.graph with failures := s.graph.failures.eraseP fun f => f.1 == entrypoint })
      fun e => .error (.resolve entrypoint e), s.shared) := by
  have hresolve : resolve (limitFor n.texts n.locations) (fun path => return .now (← r.load n path)) entrypoint t =
      (s.graph, s.shared) := by
    rw [← hs]
    rfl
  have htake : s.graph.takeFailure entrypoint =
      (failure, { s.graph with failures := s.graph.failures.eraseP fun f => f.1 == entrypoint }) := by
    rw [DependencyGraph.takeFailure, hfailure]
  unfold graphOf
  dsimp only [bind, StateT.bind] at hresolve ⊢
  rw [hresolve]
  dsimp only
  rw [htake]
  cases failure <;> rfl

/-! Stages of a package that is worked on alone -/

/-- A turn of the installation of a package. -/
def Phase.Turns (i : Installer) (n : Network) (request : PackageRequest) (before after : Phase × World) : Prop :=
  ∃ item delay, after = before.1.turn i n request item delay before.2

/-- Turns of the installation of a package. -/
abbrev Phase.Leads (i : Installer) (n : Network) (request : PackageRequest) : Phase × World → Phase × World → Prop :=
  Relation.ReflTransGen (Phase.Turns i n request)

namespace Phase

variable (i n) (request : PackageRequest)

theorem leads_choosing (task : Task World (Except InstallError (Registry × PackageModule))) (w : World) :
    Leads i n request (choosing task, w) (choosing (.done (task.alone w).1), (task.alone w).2) := by
  induction task generalizing w with
  | done a => exact .refl
  | step change next ih => exact .head ⟨0, 0, rfl⟩ (ih w (change w))

theorem leads_tasks {α : Type} (stage : List (Task World α) → Phase)
    (hstage : ∀ tasks item w, Task.results? tasks = none →
      (stage tasks).turn i n request item 0 w = (stage (Task.turn tasks item w).1, (Task.turn tasks item w).2))
    (tasks : List (Task World α)) (w : World) : Leads i n request (stage tasks, w)
      (stage ((tasks.mapM Task.alone w).1.map .done), (tasks.mapM Task.alone w).2) := by
  refine (Task.turns_mapM [] tasks w).lift (fun x => (stage x.1, x.2)) ?_
  rintro ⟨tasks, w⟩ after ⟨hnone, item, rfl⟩
  exact ⟨item, 0, (hstage tasks item w hnone).symm⟩

theorem leads_exploring (r : Registry) (root : PackageModule) (limit : Nat)
    (s : Exploration.State Traffic RegistryError) (w : World) (hs : s.shared = w.traffic) :
    Leads i n request (exploring r root s, w) (exploring r root (run (loader n r 0) limit s),
      { w with traffic := (run (loader n r 0) limit s).shared }) := by
  induction limit generalizing s w with
  | zero =>
      rw [run, hs]
  | succ limit ih =>
      rw [run]
      by_cases hend : s.agenda.isEmpty
      · rw [if_pos hend, hs]
      · rw [if_neg hend]
        refine .head ⟨0, 0, ?_⟩ (ih (step (loader n r 0) s) { w with traffic := (step (loader n r 0) s).shared } rfl)
        simp only [turn, hend, Bool.false_eq_true, if_false, ← hs]

/-- What comes after it is known what belongs to a package. -/
def afterFinding (i : Installer) : Except InstallError ResolvedPackage → Phase
  | .error e => ended (.error e)
  | .ok p => enter i p

/-- What comes after the modules of a package have been entered. -/
def afterPersisting (n : Network) : Except InstallError ResolvedPackage → Phase
  | .error e => ended (.error e)
  | .ok p => write n p

theorem leads_find (hr : ∀ r ∈ i.registries, r.client.base.Regular) (w : World) (ht : w.traffic.Faithful n) :
    Leads i n request (start i n request, w)
      (afterFinding i (i.find n request w.traffic).1, ⟨w.files, (i.find n request w.traffic).2⟩) := by
  have hchoosing := leads_choosing i n request (i.choosing n request) w
  rw [alone_choosing, World.onTraffic] at hchoosing
  refine hchoosing.trans ?_
  obtain ⟨hchosen, ht⟩ := i.gives_choose n request w.traffic ht
  cases hc : i.choose n request w.traffic with
  | mk chosen t =>
      rw [hc] at hchosen ht
      cases chosen with
      | error e =>
          rw [find_of_choose_error hc]
          exact .single ⟨0, 0, rfl⟩
      | ok pair =>
          obtain ⟨r, root⟩ := pair
          refine .head ⟨0, 0, rfl⟩ ?_
          have hexplored := leads_exploring i n request r root
            (limitFor n.texts n.locations) (initial root.entrypoint t) ⟨w.files, t⟩ rfl
          refine hexplored.trans ?_
          have hregular := hr r (mem_of_chosen hchosen.symm)
          obtain ⟨hend, -⟩ := Registry.explored hregular n root.entrypoint (answers_loader n r 0) ht
          generalize hs : run (loader n r 0) (limitFor n.texts n.locations) (initial root.entrypoint t) = s at hend ⊢
          cases hfailed : s.graph.failures.lookup root.entrypoint with
          | some e =>
              rw [find_of_graph_error hc (graphOf_of_lookup hs hfailed)]
              refine .single ⟨0, 0, ?_⟩
              simp only [turn, hend, List.isEmpty_nil, if_true, hfailed, afterFinding]
          | none =>
              -- a turn that ends the exploration, those that describe the modules, and one that collects these
              rw [find_of_graph hc (graphOf_of_lookup hs hfailed)]
              have htasks := leads_tasks i n request (describing r root s.graph)
                (fun tasks item w hnone => by simp [turn, hnone]) (s.graph.entrypoints.map (i.describing n r root))
                ⟨w.files, s.shared⟩
              have halone : (Task.alone ∘ i.describing n r root) = fun e =>
                  World.onTraffic (do return (← i.describe n r root e).map fun m => (e, m)) := rfl
              rw [List.mapM_map, halone, ← World.onTraffic_mapM] at htasks
              refine .head ⟨0, 0, ?_⟩ (htasks.tail ⟨0, 0, ?_⟩)
              · simp only [turn, hend, List.isEmpty_nil, if_true, hfailed]
              · simp only [turn, Task.results?_done]
                rfl

theorem leads_persistAll (p : ResolvedPackage) (w : World) : Leads i n request (enter i p, w)
    (afterPersisting n (i.persistAll p w).1, (i.persistAll p w).2) := by
  have htasks := leads_tasks i n request (entering p)
    (fun tasks item w hnone => by simp [turn, hnone]) (p.modules.map fun m => .once (i.persist m)) w
  have halone : (Task.alone ∘ fun m => Task.once (i.persist m)) = i.persist := rfl
  rw [List.mapM_map, halone] at htasks
  refine htasks.tail ⟨0, 0, ?_⟩
  rw [persistAll_eq]
  cases hmap : p.modules.mapM i.persist w with
  | mk results after =>
      simp only [turn, Task.results?_done, afterEntering, persistEach, bind, StateT.bind, hmap]
      cases Pipeline.collect results <;> rfl

theorem leads_downloadAll (p : ResolvedPackage) (w : World) : Leads i n request (write n p, w)
    (ended (downloadAll n p w).1, (downloadAll n p w).2) := by
  have htasks := leads_tasks i n request (writing p)
    (fun tasks item w hnone => by simp [turn, hnone]) ((distinctFiles p.modules).map (downloading n p.registry)) w
  have halone : (Task.alone ∘ downloading n p.registry) = download n p.registry := funext (alone_downloading _)
  rw [List.mapM_map, halone] at htasks
  refine htasks.tail ⟨0, 0, ?_⟩
  rw [downloadAll_eq]
  cases hmap : (distinctFiles p.modules).mapM (download n p.registry) w with
  | mk results after =>
      simp only [turn, Task.results?_done, afterWriting, downloadEach, bind, StateT.bind, hmap]
      rfl

end Phase

/-! Batches whose packages are worked on one after the other -/

namespace Batch

theorem turns_append (b : Batch) (first rest : List Turn) :
    b.turns i n (first ++ rest) = (b.turns i n first).turns i n rest := List.foldl_append

theorem turn_package (left right : List (PackageRequest × Phase)) (request : PackageRequest) (phase : Phase) (w : World)
    (item delay : Nat) : turn i n ⟨left ++ (request, phase) :: right, w⟩ ⟨left.length, item, delay⟩ =
      ⟨left ++ (request, (phase.turn i n request item delay w).1) :: right, (phase.turn i n request item delay w).2⟩ := by
  simp [turn]

theorem turns_package {request : PackageRequest} {before after : Phase × World}
    (h : Phase.Leads i n request before after) (left right : List (PackageRequest × Phase)) :
    ∃ schedule, turns i n ⟨left ++ (request, before.1) :: right, before.2⟩ schedule =
      ⟨left ++ (request, after.1) :: right, after.2⟩ := by
  induction h with
  | refl => exact ⟨[], rfl⟩
  | tail _ last ih =>
      obtain ⟨schedule, hschedule⟩ := ih
      obtain ⟨item, delay, rfl⟩ := last
      refine ⟨schedule ++ [⟨left.length, item, delay⟩], ?_⟩
      rw [turns_append, hschedule]
      exact turn_package left right request _ _ item delay

/-- All packages pass through a stage, one after the other. -/
theorem turns_stage {α β : Type} (proper : World → Prop) (before : α → Phase) (after : β → Phase)
    (work : α → StateM World β) {requests : List PackageRequest} {inputs : List α}
    (hl : inputs.length = requests.length)
    (h : ∀ x ∈ requests.zip inputs, ∀ w, proper w →
      Phase.Leads i n x.1 (before x.2, w) (after (work x.2 w).1, (work x.2 w).2) ∧ proper (work x.2 w).2)
    {w : World} (hw : proper w) (left : List (PackageRequest × Phase)) :
    ∃ schedule, turns i n ⟨left ++ (requests.zip inputs).map fun x => (x.1, before x.2), w⟩ schedule =
      ⟨left ++ (requests.zip (inputs.mapM work w).1).map fun x => (x.1, after x.2), (inputs.mapM work w).2⟩ := by
  induction inputs generalizing requests w left with
  | nil =>
      refine ⟨[], ?_⟩
      rw [List.eq_nil_of_length_eq_zero hl.symm]
      rfl
  | cons input inputs ih =>
      obtain ⟨request, requests, rfl⟩ := List.exists_cons_of_length_eq_add_one hl.symm
      rw [List.zip_cons_cons] at h
      obtain ⟨hleads, hproper⟩ := h _ List.mem_cons_self w hw
      obtain ⟨first, hfirst⟩ := turns_package hleads left ((requests.zip inputs).map fun x => (x.1, before x.2))
      obtain ⟨rest, hrest⟩ := ih (Nat.succ.inj hl) (fun x hx => h x (List.mem_cons_of_mem _ hx)) hproper
        (left ++ [(request, after (work input w).1)])
      rw [List.append_assoc, List.append_assoc] at hrest
      refine ⟨first ++ rest, ?_⟩
      rw [turns_append, List.zip_cons_cons, List.map_cons, hfirst, List.mapM_cons]
      exact hrest

end Batch

theorem leads_persisted (request : PackageRequest) (found : Except InstallError ResolvedPackage) (w : World) :
    Phase.Leads i n request (Phase.afterFinding i found, w)
      (Phase.afterPersisting n (goOn i.persistAll found w).1, (goOn i.persistAll found w).2) := by
  cases found with
  | error e => exact .refl
  | ok p => exact Phase.leads_persistAll i n request p w

theorem leads_downloaded (request : PackageRequest) (persisted : Except InstallError ResolvedPackage) (w : World) :
    Phase.Leads i n request (Phase.afterPersisting n persisted, w)
      (.ended (goOn (downloadAll n) persisted w).1, (goOn (downloadAll n) persisted w).2) := by
  cases persisted with
  | error e => exact .refl
  | ok p => exact Phase.leads_downloadAll i n request p w

/-- Packages that are installed stage after stage are installed together. -/
theorem turns_installAll (hr : ∀ r ∈ i.registries, r.client.base.Regular) (requests : List PackageRequest) (w : World)
    (ht : w.traffic.Faithful n) : ∃ schedule, (Batch.start i n requests w).turns i n schedule =
      ⟨(i.installAll n requests w).1.map fun x => (x.1, .ended x.2), (i.installAll n requests w).2⟩ := by
  have hstart : requests.map (fun request => (request, Phase.start i n request)) =
      (requests.zip requests).map fun x => (x.1, Phase.start i n x.2) := by
    rw [zip_self, List.map_map]
    rfl
  have hfinds (x : PackageRequest × PackageRequest) (hx : x ∈ requests.zip requests) (w : World)
      (hw : w.traffic.Faithful n) : Phase.Leads i n x.1 (Phase.start i n x.2, w)
        (Phase.afterFinding i (World.onTraffic (i.find n x.2) w).1, (World.onTraffic (i.find n x.2) w).2) ∧
          (World.onTraffic (i.find n x.2) w).2.traffic.Faithful n := by
    rw [zip_self] at hx
    obtain ⟨request, -, rfl⟩ := List.mem_map.1 hx
    exact ⟨Phase.leads_find i n request hr w hw, (i.gives_find n request w.traffic hw).2⟩
  obtain ⟨first, hfirst⟩ := Batch.turns_stage (fun w => w.traffic.Faithful n) (Phase.start i n) (Phase.afterFinding i)
    (fun q => World.onTraffic (i.find n q)) rfl hfinds ht []
  have hlength := Pipeline.length_mapM (fun q => World.onTraffic (i.find n q)) requests w
  rw [Batch.start, hstart, installAll]
  simp only [bind, StateT.bind]
  cases hfound : requests.mapM (fun q => World.onTraffic (i.find n q)) w with
  | mk found w₁ =>
      rw [hfound] at hfirst hlength
      obtain ⟨second, hsecond⟩ := Batch.turns_stage (fun _ => True) (Phase.afterFinding i) (Phase.afterPersisting n)
        (goOn i.persistAll) hlength (fun x _ w _ => ⟨leads_persisted x.1 x.2 w, trivial⟩) (w := w₁) trivial []
      have hlength' := (Pipeline.length_mapM (goOn i.persistAll) found w₁).trans hlength
      dsimp only at hsecond
      cases hpersisted : found.mapM (goOn i.persistAll) w₁ with
      | mk persisted w₂ =>
          rw [hpersisted] at hsecond hlength'
          obtain ⟨third, hthird⟩ := Batch.turns_stage (fun _ => True) (Phase.afterPersisting n) .ended
            (goOn (downloadAll n)) hlength' (fun x _ w _ => ⟨leads_downloaded x.1 x.2 w, trivial⟩) (w := w₂) trivial []
          refine ⟨first ++ second ++ third, ?_⟩
          rw [Batch.turns_append, Batch.turns_append]
          simp only [List.nil_append] at hfirst hsecond hthird
          rw [hfirst, hsecond, hthird]
          simp only [hpersisted]
          rfl

end Installer

end WebModules
