import WebModules.Proofs.Install.Report
import WebModules.Proofs.Install.Together

/-!
What becomes of a request: how far that depends on the order in which its modules are found, and what it is
if packages are installed stage after stage.
-/

namespace WebModules

open Schedule

namespace Installer

variable {i : Installer} {n : Network} {requests : List PackageRequest} {request : PackageRequest} {w : World}

/-! Modules in another order -/

/-- No two different modules have the same path. -/
def Apart (ms : List MappedModule) : Prop :=
  ∀ k ∈ ms, ∀ m ∈ ms, Path.same k.module.storage.path m.module.storage.path = true → k.module = m.module

theorem nodup_distinctFiles (ms : List MappedModule) : ((distinctFiles ms).map MappedModule.module).Nodup := by
  refine List.pairwise_map.2 ((pairwise_distinctFiles ms).imp fun {k m} hdifferent hsame => ?_)
  rw [hsame, Path.same, beq_self_eq_true] at hdifferent
  cases hdifferent

theorem Apart.mem_distinctFiles {ms : List MappedModule} (h : Apart ms) (module : PackageModule) :
    module ∈ (distinctFiles ms).map MappedModule.module ↔ module ∈ ms.map MappedModule.module := by
  simp only [List.mem_map]
  refine ⟨?_, ?_⟩
  · rintro ⟨m, hm, rfl⟩
    exact ⟨m, mem_of_mem_distinctFiles hm, rfl⟩
  · rintro ⟨m, hm, rfl⟩
    obtain ⟨k, hk, hsame⟩ := exists_mem_distinctFiles hm
    exact ⟨k, hk, h k (mem_of_mem_distinctFiles hk) m hm hsame⟩

theorem Apart.perm {ms ms' : List MappedModule} (h : Apart ms) (hp : ms.Perm ms') : Apart ms' :=
  fun k hk m hm => h k (hp.mem_iff.2 hk) m (hp.mem_iff.2 hm)

/-- If no two modules have the same path, the order makes no difference to which files there are. -/
theorem Apart.distinctFiles_perm {ms ms' : List MappedModule} (h : Apart ms) (hp : ms.Perm ms') :
    ((distinctFiles ms).map MappedModule.module).Perm ((distinctFiles ms').map MappedModule.module) := by
  refine (List.perm_ext_iff_of_nodup (nodup_distinctFiles ms) (nodup_distinctFiles ms')).2 fun module => ?_
  rw [h.mem_distinctFiles, (h.perm hp).mem_distinctFiles, (hp.map _).mem_iff]

/-! Outcomes -/

theorem collect_prepared {prepared : MappedModule → Except InstallError String} {ms ms' : List MappedModule}
    (h : Pipeline.collect (ms.map fun m => (prepared m).map fun _ => m) = .ok ms') :
    ms' = ms ∧ ∀ m ∈ ms, ∃ text, prepared m = .ok text := by
  induction ms generalizing ms' with
  | nil =>
      cases h
      exact ⟨rfl, by simp⟩
  | cons m ms ih =>
      rw [List.map_cons] at h
      cases htext : prepared m with
      | error e =>
          rw [htext] at h
          cases h
      | ok text =>
          rw [htext] at h
          obtain ⟨others, hrest, rfl⟩ := map_eq_ok h
          obtain ⟨rfl, htexts⟩ := ih hrest
          exact ⟨rfl, List.forall_mem_cons.2 ⟨⟨text, htext⟩, htexts⟩⟩

theorem outcome_eq_ok {p : ResolvedPackage} {q : InstalledPackage} (h : outcome n p = .ok q) :
    q = installed p (distinctFiles p.modules) ∧
      ∀ m ∈ distinctFiles p.modules, ∃ text, p.registry.prepared n m.module.entrypoint = .ok text := by
  obtain ⟨ms, hcollect, rfl⟩ := map_eq_ok h
  obtain ⟨rfl, htexts⟩ := collect_prepared hcollect
  exact ⟨rfl, htexts⟩

theorem outcome_eq_error {p : ResolvedPackage} {e : InstallError} (h : outcome n p = .error e) :
    ∃ m ∈ distinctFiles p.modules, p.registry.prepared n m.module.entrypoint = .error e := by
  obtain ⟨m, hm, hresult⟩ := List.mem_map.1 (Pipeline.mem_of_collect_eq_error (map_eq_error h))
  exact ⟨m, hm, map_eq_error hresult⟩

theorem Arranges.root {p : ResolvedPackage} (h : i.Arranges n request p) :
    ∃ root others, p.modules = ⟨root, none⟩ :: others := by
  obtain ⟨ms, hfound, hhead, -⟩ := h
  have hfind := (i.gives_find n request .empty (Traffic.faithful_empty n)).1
  obtain ⟨-, root, others, hroot⟩ := i.ensures_root n request .empty _ (hfind.trans hfound)
  dsimp only at hroot
  rw [hroot, List.head?_cons] at hhead
  obtain ⟨rest, hrest⟩ := List.head?_eq_some_iff.1 hhead.symm
  exact ⟨root, rest, hrest⟩

theorem Arranges.refl {p : ResolvedPackage} (h : i.found n request = .ok p) : i.Arranges n request p :=
  ⟨p.modules, h, rfl, .refl _⟩

theorem Arranges.perm {p p' : ResolvedPackage} (h : i.Arranges n request p) (h' : i.Arranges n request p') :
    p'.request = p.request ∧ p'.registry = p.registry ∧ p'.modules.head? = p.modules.head? ∧
      p'.modules.Perm p.modules := by
  obtain ⟨ms, hfound, hhead, hperm⟩ := h
  obtain ⟨ms', hfound', hhead', hperm'⟩ := h'
  rw [hfound] at hfound'
  obtain ⟨hrequest, hregistry, rfl⟩ := ResolvedPackage.mk.inj (Except.ok.inj hfound')
  exact ⟨hrequest.symm, hregistry.symm, hhead'.symm.trans hhead, hperm'.symm.trans hperm⟩

/-- The same package, but for the order of its modules. -/
structure Rearranged (q q' : InstalledPackage) : Prop where
  request : q'.request = q.request
  registry : q'.registry = q.registry
  root : q'.root? = q.root?
  modules : (q'.modules.map MappedModule.module).Perm (q.modules.map MappedModule.module)

theorem find?_root_distinctFiles {root : PackageModule} {others : List MappedModule} :
    (distinctFiles (⟨root, none⟩ :: others)).find? MappedModule.isRoot = some ⟨root, none⟩ := by
  obtain ⟨rest, hrest⟩ := distinctFiles_cons ⟨root, none⟩ others
  rw [hrest]
  rfl

/-- If no two different modules have the same path, the same modules are installed. -/
theorem Arranges.outcome_ok {p p' : ResolvedPackage} {q : InstalledPackage} (h : i.Arranges n request p)
    (h' : i.Arranges n request p') (ha : Apart p.modules) (hq : outcome n p = .ok q) :
    ∃ q', outcome n p' = .ok q' ∧ Rearranged q q' := by
  obtain ⟨rfl, htexts⟩ := outcome_eq_ok hq
  obtain ⟨hrequest, hregistry, hhead, hperm⟩ := h.perm h'
  have hfiles := ha.distinctFiles_perm hperm.symm
  cases hq' : outcome n p' with
  | error e =>
      obtain ⟨m, hm, he⟩ := outcome_eq_error hq'
      obtain ⟨k, hk, hsame⟩ := List.mem_map.1 (hfiles.mem_iff.2 (List.mem_map_of_mem hm))
      obtain ⟨text, htext⟩ := htexts k hk
      rw [← hsame, hregistry, htext] at he
      cases he
  | ok q' =>
      obtain ⟨rfl, -⟩ := outcome_eq_ok hq'
      obtain ⟨root, others, hroot⟩ := h.root
      obtain ⟨root', others', hroot'⟩ := h'.root
      rw [hroot, hroot', List.head?_cons, List.head?_cons] at hhead
      obtain ⟨rfl, -⟩ := MappedModule.mk.inj (Option.some.inj hhead)
      refine ⟨_, rfl, ?_, hregistry, ?_, hfiles.symm⟩
      · rw [installed, installed, hroot, hroot', find?_root_distinctFiles, find?_root_distinctFiles, hrequest]
      · rw [InstalledPackage.root?, InstalledPackage.root?, installed, installed, hroot, hroot',
          find?_root_distinctFiles, find?_root_distinctFiles]

theorem Arranges.outcome_error {p p' : ResolvedPackage} {e : InstallError} (h : i.Arranges n request p)
    (h' : i.Arranges n request p') (ha : Apart p.modules) (he : outcome n p = .error e) :
    ∃ e', outcome n p' = .error e' ∧ ∃ m ∈ p.modules, p.registry.prepared n m.module.entrypoint = .error e ∧
      ∃ m' ∈ p.modules, p.registry.prepared n m'.module.entrypoint = .error e' := by
  obtain ⟨m, hm, hprepared⟩ := outcome_eq_error he
  obtain ⟨-, hregistry, -, hperm⟩ := h.perm h'
  cases he' : outcome n p' with
  | ok q =>
      obtain ⟨_, hok, -⟩ := h'.outcome_ok h (ha.perm hperm.symm) he'
      rw [he] at hok
      cases hok
  | error e' =>
      obtain ⟨m', hm', hprepared'⟩ := outcome_eq_error he'
      rw [hregistry] at hprepared'
      exact ⟨e', rfl, m, mem_of_mem_distinctFiles hm, hprepared, m', hperm.mem_iff.1 (mem_of_mem_distinctFiles hm'),
        hprepared'⟩

/-- What a request comes to if its modules have been found in some order. -/
def ComesTo (i : Installer) (n : Network) (request : PackageRequest) (outcome : Except InstallError InstalledPackage) :
    Prop :=
  (∃ e, i.found n request = .error e ∧ outcome = .error e) ∨
    ∃ p, i.Arranges n request p ∧ outcome = Installer.outcome n p

/-- Outcomes of the same request that differ at most because its modules have been found in different orders. -/
structure Alike (i : Installer) (n : Network) (request : PackageRequest)
    (outcome alone : Except InstallError InstalledPackage) : Prop where
  comesTo : i.ComesTo n request outcome ∧ i.ComesTo n request alone
  missing : ∀ e, i.found n request = .error e → outcome = .error e ∧ alone = .error e
  /-- The order does not matter to what is installed if no two different modules have the same path. -/
  installed : ∀ p, i.found n request = .ok p → Apart p.modules → ∀ q, outcome = .ok q →
    ∃ q', alone = .ok q' ∧ Rearranged q q'
  /-- Nor does it matter then to whether there are modules that cannot be installed. -/
  failed : ∀ p, i.found n request = .ok p → Apart p.modules → ∀ e, outcome = .error e → ∃ e', alone = .error e' ∧
    ∃ m ∈ p.modules, p.registry.prepared n m.module.entrypoint = .error e ∧
      ∃ m' ∈ p.modules, p.registry.prepared n m'.module.entrypoint = .error e'

theorem ComesTo.arranged {outcome : Except InstallError InstalledPackage} {p : ResolvedPackage}
    (h : i.ComesTo n request outcome) (hp : i.found n request = .ok p) :
    ∃ p', i.Arranges n request p' ∧ outcome = Installer.outcome n p' := by
  refine h.resolve_left ?_
  rintro ⟨e, he, -⟩
  rw [hp] at he
  cases he

theorem ComesTo.missing {outcome : Except InstallError InstalledPackage} {e : InstallError}
    (h : i.ComesTo n request outcome) (he : i.found n request = .error e) : outcome = .error e := by
  rcases h with ⟨e', he', rfl⟩ | ⟨p, ⟨ms, hfound, -⟩, -⟩
  · rw [he] at he'
    cases he'
    rfl
  · rw [he] at hfound
    cases hfound

theorem ComesTo.alike {outcome alone : Except InstallError InstalledPackage} (h : i.ComesTo n request outcome)
    (h' : i.ComesTo n request alone) : i.Alike n request outcome alone := by
  refine ⟨⟨h, h'⟩, fun e he => ⟨h.missing he, h'.missing he⟩, fun p hp ha q hq => ?_, fun p hp ha e he => ?_⟩
  · obtain ⟨p₁, harranges, rfl⟩ := h.arranged hp
    obtain ⟨p₂, harranges', rfl⟩ := h'.arranged hp
    obtain ⟨-, -, -, hperm⟩ := harranges.perm (.refl hp)
    exact harranges.outcome_ok harranges' (ha.perm hperm) hq
  · obtain ⟨p₁, harranges, rfl⟩ := h.arranged hp
    obtain ⟨p₂, harranges', rfl⟩ := h'.arranged hp
    obtain ⟨-, hregistry, -, hperm⟩ := harranges.perm (.refl hp)
    obtain ⟨e', he', m, hm, hprepared, m', hm', hprepared'⟩ :=
      harranges.outcome_error harranges' (ha.perm hperm) he
    rw [hregistry]
    exact ⟨e', he', m, hperm.mem_iff.2 hm, hprepared, m', hperm.mem_iff.2 hm', hprepared'⟩

/-! Stage after stage -/

/-- What becomes of a request if files can be written and all that is requested is there at once. -/
def expected (i : Installer) (n : Network) (request : PackageRequest) : Except InstallError InstalledPackage :=
  (i.found n request).bind (outcome n)

theorem traffic_persist (m : MappedModule) (w : World) : (i.persist m w).2.traffic = w.traffic := by
  rw [persist_world]
  split <;> rfl

theorem persistAll_expected (p : ResolvedPackage) (w : World) :
    (i.persistAll p w).2.traffic = w.traffic ∧ UnlessFiles (.ok p) (i.persistAll p w).1 := by
  have hpersist (m : MappedModule) (w : World) : UnlessFiles (.ok m) (i.persist m w).1 := by
    cases hresult : (i.persist m w).1 with
    | error e => exact .inr ⟨e, rfl, persist_eq_error hresult⟩
    | ok m' =>
        obtain ⟨rfl, -⟩ := persist_eq_ok (Prod.ext hresult rfl)
        exact .inl rfl
  obtain ⟨htraffic, hresults⟩ := Pipeline.forall₂_mapM (I := fun w' : World => w'.traffic = w.traffic)
    i.persist p.modules (fun m _ w' hw' => ⟨(i.traffic_persist m w').trans hw', hpersist m w'⟩) rfl
  have hcollect := collect_unlessFiles hresults
  rw [Pipeline.collect_map_ok] at hcollect
  rw [persistAll_eq]
  refine ⟨htraffic, ?_⟩
  change UnlessFiles _ ((Pipeline.collect (p.modules.mapM i.persist w).1).map _)
  rcases hcollect with hcollect | ⟨e, hcollect, hfiles⟩
  · rw [hcollect]
    exact .inl rfl
  · rw [hcollect]
    exact .inr ⟨e, rfl, hfiles⟩

theorem downloadAll_expected (p : ResolvedPackage) {w : World} (ht : w.traffic.Faithful n) :
    (downloadAll n p w).2.traffic.Faithful n ∧ UnlessFiles (outcome n p) (downloadAll n p w).1 := by
  have hdownload (m : MappedModule) (w : World) (ht : w.traffic.Faithful n) :
      UnlessFiles ((p.registry.prepared n m.module.entrypoint).map fun _ => m) (download n p.registry m w).1 := by
    cases hresult : (download n p.registry m w).1 with
    | error e =>
        rcases download_eq_error ht hresult with hfiles | hprepared
        · exact .inr ⟨e, rfl, hfiles⟩
        · rw [hprepared]
          exact .inl rfl
    | ok m' =>
        obtain ⟨rfl, -, text, hprepared, -⟩ := download_eq_ok ht (Prod.ext hresult rfl)
        rw [hprepared]
        exact .inl rfl
  obtain ⟨hfaithful, hresults⟩ := Pipeline.forall₂_mapM (I := fun w : World => w.traffic.Faithful n)
    (download n p.registry) (distinctFiles p.modules) (fun m _ w hw => ⟨faithful_download m w hw, hdownload m w hw⟩) ht
  have hcollect := collect_unlessFiles hresults
  rw [outcome, downloadAll_eq]
  refine ⟨hfaithful, ?_⟩
  change UnlessFiles _ ((Pipeline.collect ((distinctFiles p.modules).mapM (download n p.registry) w).1).map _)
  rcases hcollect with hcollect | ⟨e, hcollect, hfiles⟩
  · rw [hcollect]
    exact .inl rfl
  · rw [hcollect]
    exact .inr ⟨e, rfl, hfiles⟩

theorem goOn_expected {α β : Type} {next : α → StateM World (Except InstallError β)} {expected : α → Except InstallError β}
    (h : ∀ a (w : World), w.traffic.Faithful n → (next a w).2.traffic.Faithful n ∧ UnlessFiles (expected a) (next a w).1)
    (before : Except InstallError α) {w : World} (ht : w.traffic.Faithful n) :
    (goOn next before w).2.traffic.Faithful n ∧ UnlessFiles (before.bind expected) (goOn next before w).1 := by
  cases before with
  | error e => exact ⟨ht, .inl rfl⟩
  | ok a => exact h a w ht

theorem unlessFiles_bind {α β : Type} {expected : α → Except InstallError β} {found persisted : Except InstallError α}
    {result : Except InstallError β} (h : UnlessFiles found persisted) (h' : UnlessFiles (persisted.bind expected) result) :
    UnlessFiles (found.bind expected) result := by
  rcases h with rfl | ⟨e, rfl, hfiles⟩
  · exact h'
  · refine .inr ?_
    rcases h' with rfl | hfailed
    · exact ⟨e, rfl, hfiles⟩
    · exact hfailed

theorem forall₂_trans {α β γ : Type} {R : α → β → Prop} {S : β → γ → Prop} {T : α → γ → Prop}
    (hcomp : ∀ a b c, R a b → S b c → T a c) {as : List α} {bs : List β} {cs : List γ} (h : List.Forall₂ R as bs)
    (h' : List.Forall₂ S bs cs) : List.Forall₂ T as cs := by
  induction h generalizing cs with
  | nil =>
      cases h'
      exact .nil
  | cons head rest ih =>
      cases h' with
      | cons head' rest' => exact .cons (hcomp _ _ _ head head') (ih rest')

/-- Packages that are installed stage after stage come to what is expected, in the order of their requests. -/
theorem installAll_expected (i : Installer) (requests : List PackageRequest) {w : World} (ht : w.traffic.Faithful n) :
    (i.installAll n requests w).1.map Prod.fst = requests ∧
      ∀ x ∈ (i.installAll n requests w).1, UnlessFiles (i.expected n x.1) x.2 := by
  have hfind (request : PackageRequest) (w : World) (hw : w.traffic.Faithful n) :
      (World.onTraffic (i.find n request) w).2.traffic.Faithful n ∧
        i.found n request = (World.onTraffic (i.find n request) w).1 :=
    ⟨(i.gives_find n request w.traffic hw).2, (i.gives_find n request w.traffic hw).1.symm⟩
  have hpersistAll (p : ResolvedPackage) (w : World) (hw : w.traffic.Faithful n) :
      (i.persistAll p w).2.traffic.Faithful n ∧ UnlessFiles (.ok p) (i.persistAll p w).1 := by
    obtain ⟨htraffic, hresult⟩ := persistAll_expected (i := i) p w
    exact ⟨htraffic ▸ hw, hresult⟩
  obtain ⟨hw₁, hfound⟩ := Pipeline.forall₂_mapM (I := fun w : World => w.traffic.Faithful n)
    (fun request => World.onTraffic (i.find n request)) requests (fun request _ w hw => hfind request w hw) ht
  rw [installAll]
  simp only [bind, StateT.bind]
  cases hstage₁ : requests.mapM (fun request => World.onTraffic (i.find n request)) w with
  | mk found w₁ =>
      rw [hstage₁] at hw₁ hfound
      obtain ⟨hw₂, hpersisted⟩ := Pipeline.forall₂_mapM (I := fun w : World => w.traffic.Faithful n)
        (goOn i.persistAll) found (fun found _ w hw => goOn_expected hpersistAll found hw) hw₁
      dsimp only
      cases hstage₂ : found.mapM (goOn i.persistAll) w₁ with
      | mk persisted w₂ =>
          rw [hstage₂] at hw₂ hpersisted
          dsimp only at hw₂ ⊢
          obtain ⟨-, hinstalled⟩ := Pipeline.forall₂_mapM (I := fun w : World => w.traffic.Faithful n)
            (goOn (downloadAll n)) persisted
            (fun persisted _ w hw => goOn_expected (fun p w hw => downloadAll_expected p hw) persisted hw) hw₂
          have hrequests := forall₂_trans (T := fun request => UnlessFiles (i.found n request))
            (fun request found persisted hsame hresult => by cases found <;> exact hsame ▸ hresult) hfound hpersisted
          have hstages (request : PackageRequest) (persisted : Except InstallError ResolvedPackage)
              (result : Except InstallError InstalledPackage) (hfirst : UnlessFiles (i.found n request) persisted)
              (hsecond : UnlessFiles (persisted.bind (outcome n)) result) :
              UnlessFiles (i.expected n request) result := unlessFiles_bind hfirst hsecond
          have hoverall := forall₂_trans hstages hrequests hinstalled
          obtain ⟨hlength, hzip⟩ := List.forall₂_iff_zip.1 hoverall
          exact ⟨List.map_fst_zip hlength.le, fun x hx => hzip hx⟩

end Installer

end WebModules
