import WebModules.Proofs.FileTree.Growth
import WebModules.Proofs.ImportMap.Persist
import WebModules.Proofs.Install.Found
import WebModules.Proofs.Package.Layout
import WebModules.Proofs.Rewrite.Fill

/-!
The files that are written for a package: where they are, and what stands in them.
-/

namespace WebModules

open Script Schedule

namespace Registry

variable (r : Registry) (n : Network)

/-- The name that a module that is served from somewhere imports another one by. -/
def importedName (location specifier : String) : String :=
  match r.identified n (Specifier.join location specifier) with
  | .ok m => m.importName
  | .error _ => specifier

/-- The text that is written for a module. -/
def prepared (entrypoint : String) : Except InstallError String :=
  match r.loaded n entrypoint with
  | .error e => .error (.registry e)
  | .ok m =>
    (rewrite (fun specifier => .now (.ok (r.importedName n m.location specifier))) m.source).mapError
      (.rewrite entrypoint)

end Registry

/-- Finding names on the way is no different from knowing them. -/
theorem gives_rewriteFinding {n : Network} {find : String → StateM Traffic String} {name : String → String}
    (h : ∀ specifier, Gives n (find specifier) (name specifier)) (text : String) :
    Gives n (rewriteFinding find text) (rewrite (fun specifier => .now (.ok (name specifier))) text) := by
  unfold rewriteFinding rewrite
  cases walk text with
  | error e => exact .pure n _
  | ok records =>
      dsimp only
      cases hplan : Rewrite.plan (ε := Empty) records with
      | error e =>
          rw [Rewrite.walked, hplan]
          exact .pure n _
      | ok ds =>
          have hresolved : Rewrite.resolveAll (ε := Empty) (fun specifier => .now (.ok (name specifier))) ds =
              .ok (ds.map fun d => name d.specifier) := Rewrite.resolveAll_eq_ok fun _ _ => rfl
          rw [Rewrite.walked_eq hplan, hresolved]
          have hnames : Gives n (ds.mapM fun d => find d.specifier) (ds.map fun d => name d.specifier) :=
            .mapM fun d _ => h d.specifier
          exact hnames.bind (.pure n _)

theorem World.onTraffic_bind {α β : Type} (work : StateM Traffic α) (next : α → StateM World β) (w : World) :
    (World.onTraffic work >>= next) w =
      next (work w.traffic).1 { w with traffic := (work w.traffic).2 } := rfl

theorem World.onFiles_bind {α β : Type} (work : StateM FileTree α) (next : α → StateM World β) (w : World) :
    (World.onFiles work >>= next) w = next (work w.files).1 { w with files := (work w.files).2 } := rfl

namespace Installer

variable {i : Installer} {n : Network} {r : Registry}

theorem gives_nameFor (r : Registry) (n : Network) (location specifier : String) :
    Gives n (nameFor n r location specifier) (r.importedName n location specifier) := by
  unfold nameFor Registry.importedName
  refine (r.gives_identify n _).bind ?_
  cases r.identified n (Specifier.join location specifier) <;> exact .pure n _

theorem gives_prepareText (r : Registry) (n : Network) (entrypoint : String) :
    Gives n (prepareText n r entrypoint) (r.prepared n entrypoint) := by
  unfold prepareText Registry.prepared
  refine (r.gives_load n entrypoint).bind ?_
  cases r.loaded n entrypoint with
  | error e => exact .pure n _
  | ok m =>
      dsimp only
      refine (gives_rewriteFinding (gives_nameFor r n m.location) m.source).bind ?_
      cases rewrite _ m.source <;> exact .pure n _

theorem keeps_writeModule (storage : Storage) (text : String) (t : FileTree) :
    t.Keeps (FileTree.EndsIn storage.path) (writeModule storage text t).2 := by
  have hmade := FileTree.keeps_makeDirectories (FileTree.EndsIn storage.path) t storage.dir
  unfold writeModule
  split
  · rename_i e t' h
    rwa [h] at hmade
  · rename_i t' h
    rw [h] at hmade
    split
    · rename_i t'' hwrite
      exact hmade.trans (FileTree.keeps_write hwrite)
    · exact hmade

theorem grows_writeModule (storage : Storage) (text : String) (t : FileTree) :
    FileTree.Grows (· = Path.place storage.path) (FileTree.Passes storage.dir) t (writeModule storage text t).2 := by
  have hmade := FileTree.grows_makeDirectories (· = Path.place storage.path) t storage.dir
  rw [writeModule]
  split
  · rename_i e t' h
    rwa [h] at hmade
  · rename_i t' h
    rw [h] at hmade
    split
    · rename_i t'' hwrite
      exact hmade.trans (FileTree.grows_write hwrite _)
    · exact hmade

theorem preserves_writeModule (storage : Storage) (text : String) (t : FileTree) :
    FileTree.Preserves t (writeModule storage text t).2 := by
  have hmade := FileTree.preserves_makeDirectories t storage.dir
  rw [writeModule]
  split
  · rename_i e t' h
    rwa [h] at hmade
  · rename_i t' h
    rw [h] at hmade
    split
    · rename_i t'' hwrite
      exact hmade.trans (FileTree.preserves_write hwrite)
    · exact hmade

/-- The tree in which the files of modules have been written. -/
def written (files : List (MappedModule × String)) (t : FileTree) : FileTree :=
  files.foldl (fun t f => (writeModule f.1.module.storage f.2 t).2) t

theorem writeModule_eq_ok {storage : Storage} {text : String} {t t' : FileTree}
    (h : writeModule storage text t = (.ok (), t')) : t'.read storage.path = .ok text := by
  unfold writeModule at h
  split at h
  · cases h
  · rename_i made hmade
    split at h
    · rename_i t'' hwrite
      obtain ⟨-, rfl⟩ := Prod.mk.inj h
      exact FileTree.read_of_write hwrite
    · cases h

/-- A module whose text cannot be prepared is not written. -/
theorem download_eq (n : Network) (r : Registry) (m : MappedModule) (w : World) :
    download n r m w =
      match prepareText n r m.module.entrypoint w.traffic with
      | (.error e, traffic) => (.error e, ⟨w.files, traffic⟩)
      | (.ok text, traffic) =>
        match writeModule m.module.storage text w.files with
        | (.error e, files) => (.error e, ⟨files, traffic⟩)
        | (.ok (), files) => (.ok m, ⟨files, traffic⟩) := by
  rw [download, World.onTraffic_bind]
  cases prepareText n r m.module.entrypoint w.traffic with
  | mk prepared traffic =>
      cases prepared with
      | error e => rfl
      | ok text =>
          dsimp only
          rw [World.onFiles_bind]
          cases writeModule m.module.storage text w.files with
          | mk result files => cases result <;> rfl

/-- The files change at most as they do when the file of the module is written. -/
theorem files_download (n : Network) (r : Registry) (m : MappedModule) (w : World) :
    (download n r m w).2.files = w.files ∨
      ∃ text, (download n r m w).2.files = (writeModule m.module.storage text w.files).2 := by
  rw [download_eq]
  split
  · exact .inl rfl
  · rename_i text traffic _
    right
    use text
    split
    · rename_i hwrite
      rw [hwrite]
    · rename_i hwrite
      rw [hwrite]

theorem readable_download {m m' : MappedModule} {w w' : World} (h : download n r m w = (.ok m', w')) :
    w'.files.Readable m.module.storage.path := by
  rw [download_eq] at h
  split at h
  · cases h
  · rename_i text traffic _
    split at h
    · cases h
    · rename_i files hwrite
      cases h
      exact ⟨text, writeModule_eq_ok hwrite⟩

theorem download_eq_ok {m m' : MappedModule} {w w' : World} (ht : w.traffic.Faithful n)
    (h : download n r m w = (.ok m', w')) : m' = m ∧ w'.traffic.Faithful n ∧
      ∃ text, r.prepared n m.module.entrypoint = .ok text ∧
        writeModule m.module.storage text w.files = (.ok (), w'.files) := by
  obtain ⟨hprepared, htraffic⟩ := gives_prepareText r n m.module.entrypoint w.traffic ht
  rw [download, World.onTraffic_bind, hprepared] at h
  cases hp : r.prepared n m.module.entrypoint with
  | error e =>
      rw [hp] at h
      cases h
  | ok text =>
      simp only [hp] at h
      rw [World.onFiles_bind] at h
      cases hw : writeModule m.module.storage text w.files with
      | mk result files =>
          simp only [hw] at h
          cases result with
          | error e => cases h
          | ok u =>
              cases h
              exact ⟨rfl, htraffic, text, rfl, hw⟩

/-- Files of modules are written one after the other. -/
inductive Writes : List (MappedModule × String) → FileTree → FileTree → Prop
  | nil (t : FileTree) : Writes [] t t
  | cons {m : MappedModule} {text : String} {files : List (MappedModule × String)} {t t' t'' : FileTree}
      (first : writeModule m.module.storage text t = (.ok (), t')) (rest : Writes files t' t'') :
      Writes ((m, text) :: files) t t''

theorem Writes.written {files : List (MappedModule × String)} {t t' : FileTree} (h : Writes files t t') :
    t' = Installer.written files t := by
  induction h with
  | nil t => rfl
  | cons first rest ih => rw [ih, Installer.written, Installer.written, List.foldl_cons, first]

/-- All files of a package are written one after the other, each with the text that the network has
for its module. -/
theorem downloads {ms ms' : List MappedModule} {w w' : World} (ht : w.traffic.Faithful n)
    (h : Pipeline.Runs (download n r) ms ms' w w') : ms' = ms ∧
      ∃ files : List (MappedModule × String), files.map Prod.fst = ms ∧
        (∀ f ∈ files, r.prepared n f.1.module.entrypoint = .ok f.2) ∧ Writes files w.files w'.files := by
  induction h with
  | nil w => exact ⟨rfl, [], rfl, by simp, .nil _⟩
  | @cons m ms m' ms' w w' w'' first rest ih =>
      obtain ⟨rfl, htraffic, text, htext, hwritten⟩ := download_eq_ok ht first
      obtain ⟨rfl, files, rfl, htexts, hfiles⟩ := ih htraffic
      exact ⟨rfl, (m', text) :: files, rfl, List.forall_mem_cons.2 ⟨htext, htexts⟩, .cons hwritten hfiles⟩

theorem mem_of_mem_distinctFiles {ms : List MappedModule} {m : MappedModule}
    (h : m ∈ distinctFiles ms) : m ∈ ms := by
  have hfold (ms kept : List MappedModule) (h : m ∈ ms.foldl (fun kept m =>
      if kept.any fun k => Path.same k.module.storage.path m.module.storage.path then kept
      else kept ++ [m]) kept) : m ∈ kept ∨ m ∈ ms := by
    induction ms generalizing kept with
    | nil => exact .inl h
    | cons next ms ih =>
        rcases ih _ h with h | h
        · dsimp only at h
          split at h
          · exact .inl h
          · rcases List.mem_append.1 h with h | h
            · exact .inl h
            · exact .inr (List.mem_cons.2 (.inl (List.mem_singleton.1 h)))
        · exact .inr (List.mem_cons_of_mem _ h)
  exact (hfold ms [] h).resolve_left (by simp)

theorem Holds.written {document : Json} {files : List (MappedModule × String)} {t : FileTree}
    (h : i.Holds document t) (hs : ∀ f ∈ files, f.1.module.storage =
      i.layout.storage f.1.module.name f.1.module.target f.1.module.version) :
    i.Holds document (written files t) := by
  induction files generalizing t with
  | nil => exact h
  | cons f files ih =>
      have hne := i.layout.lastPart?_ne f.1.module.name f.1.module.target f.1.module.version
      rw [← hs f List.mem_cons_self] at hne
      exact ih (h.keep (keeps_writeModule _ _ _) hne) fun g hg => hs g (List.mem_cons_of_mem _ hg)

/-- A package that has been installed with a root: what it consists of, and the files with what has
been written in them. -/
structure Installed (i : Installer) (n : Network) (p : InstalledPackage) (root : PackageModule)
    (document : Json) (files : List (MappedModule × String)) (t t' : FileTree) : Prop where
  registry : p.registry ∈ i.registries
  mem_graph : root.entrypoint ∈ (p.registry.graph n root.entrypoint).entrypoints
  modules : p.modules = distinctFiles (i.mapped n p.registry root)
  fst : files.map Prod.fst = p.modules
  mapped : i.Holds ((i.mapped n p.registry root).foldl ImportMap.entered document) t
  prepared : ∀ f ∈ files, p.registry.prepared n f.1.module.entrypoint = .ok f.2
  written : t' = Installer.written files t
  kept : i.Holds ((i.mapped n p.registry root).foldl ImportMap.entered document) t'

/-! The stages of an installation -/

/-- What an installation comes to if these modules have been written. -/
def installed (p : ResolvedPackage) (ms : List MappedModule) : InstalledPackage :=
  ⟨{ p.request with version := (ms.find? MappedModule.isRoot).map fun m => m.module.version }, p.registry, ms⟩

/-- Enters the modules of a package one after the other. -/
def persistEach (i : Installer) (p : ResolvedPackage) : StateM World (Except InstallError ResolvedPackage) := do
  let results ← p.modules.mapM i.persist
  return (Pipeline.collect results).map fun ms => { p with modules := ms }

/-- Writes the files of a package one after the other. -/
def downloadEach (n : Network) (p : ResolvedPackage) : StateM World (Except InstallError InstalledPackage) := do
  let results ← (distinctFiles p.modules).mapM (download n p.registry)
  return (Pipeline.collect results).map (installed p)

theorem persistAll_eq (i : Installer) : i.persistAll = i.persistEach := by
  funext p w
  rw [persistAll, Pipeline.map_now]
  cases hmap : p.modules.mapM i.persist w with
  | mk results after =>
      simp only [persistEach, bind, StateT.bind, hmap]
      cases Pipeline.collect results <;> rfl

theorem downloadAll_eq (n : Network) : downloadAll n = downloadEach n := by
  funext p w
  rw [downloadAll, Pipeline.map_now]
  cases hmap : (distinctFiles p.modules).mapM (download n p.registry) w with
  | mk results after =>
      simp only [downloadEach, bind, StateT.bind, hmap]
      cases Pipeline.collect results <;> rfl

theorem install_eq (i : Installer) (n : Network) (request : PackageRequest) : i.install n request = (do
    let found ← World.onTraffic (i.find n request)
    let persisted ← goOn i.persistEach found
    goOn (downloadEach n) persisted) := by
  rw [install, persistAll_eq, downloadAll_eq]

theorem installAll_eq (i : Installer) (n : Network) (requests : List PackageRequest) : i.installAll n requests = do
    let found ← requests.mapM fun request => World.onTraffic (i.find n request)
    let persisted ← found.mapM (goOn i.persistEach)
    let installed ← persisted.mapM (goOn (downloadEach n))
    return requests.zip installed := by
  rw [installAll, persistAll_eq, downloadAll_eq]

/-- What an installation comes to: nothing is found, or not all that is found can be entered, or it is
written. -/
theorem install_cases {request : PackageRequest} {outcome : Except InstallError InstalledPackage} {w w' : World}
    (h : i.install n request w = (outcome, w')) :
    (∃ e, (i.find n request w.traffic).1 = .error e ∧ outcome = .error e ∧ w'.files = w.files) ∨
    ∃ p, (i.find n request w.traffic).1 = .ok p ∧
      ((∃ e, i.persistAll p ⟨w.files, (i.find n request w.traffic).2⟩ = (.error e, w') ∧ outcome = .error e) ∨
        ∃ p' next, i.persistAll p ⟨w.files, (i.find n request w.traffic).2⟩ = (.ok p', next) ∧
          downloadAll n p' next = (outcome, w')) := by
  rw [install, World.onTraffic_bind] at h
  cases hfound : (i.find n request w.traffic).1 with
  | error e =>
      rw [hfound] at h
      cases h
      exact .inl ⟨e, rfl, rfl, rfl⟩
  | ok p =>
      right
      refine ⟨p, rfl, ?_⟩
      simp only [hfound, goOn, bind, StateT.bind] at h
      cases hpersist : i.persistAll p ⟨w.files, (i.find n request w.traffic).2⟩ with
      | mk result next =>
          rw [hpersist] at h
          cases result with
          | error e =>
              cases h
              exact .inl ⟨e, rfl, rfl⟩
          | ok p' => exact .inr ⟨p', next, rfl, h⟩

theorem settles_persistAll {p : ResolvedPackage} {outcome : Except InstallError ResolvedPackage} {w w' : World}
    (h : i.persistAll p w = (outcome, w')) : ∃ results, Pipeline.Settles i.persist p.modules results w w' ∧
      outcome = (Pipeline.collect results).map fun ms => { p with modules := ms } := by
  rw [persistAll_eq] at h
  obtain ⟨rfl, rfl⟩ := Prod.mk.inj h
  exact ⟨_, Pipeline.settles_mapM i.persist p.modules w, rfl⟩

theorem settles_downloadAll {p : ResolvedPackage} {outcome : Except InstallError InstalledPackage} {w w' : World}
    (h : downloadAll n p w = (outcome, w')) : ∃ results,
      Pipeline.Settles (download n p.registry) (distinctFiles p.modules) results w w' ∧
        outcome = (Pipeline.collect results).map (installed p) := by
  rw [downloadAll_eq] at h
  obtain ⟨rfl, rfl⟩ := Prod.mk.inj h
  exact ⟨_, Pipeline.settles_mapM (download n p.registry) (distinctFiles p.modules) w, rfl⟩

theorem persistAll_eq_ok {p p' : ResolvedPackage} {w w' : World} (h : i.persistAll p w = (.ok p', w')) :
    p' = p ∧ w'.traffic = w.traffic ∧ Pipeline.Runs i.persist p.modules p.modules w w' := by
  obtain ⟨results, hsettles, hresults⟩ := settles_persistAll h
  obtain ⟨values, hcollect, rfl⟩ := map_eq_ok hresults.symm
  have hruns := hsettles.runs hcollect
  obtain ⟨rfl, htraffic⟩ := persist_runs hruns
  exact ⟨rfl, htraffic, hruns⟩

theorem downloadAll_runs {p : ResolvedPackage} {q : InstalledPackage} {w w' : World}
    (h : downloadAll n p w = (.ok q, w')) :
    q.request = { p.request with version := (q.modules.find? MappedModule.isRoot).map fun m => m.module.version } ∧
      q.registry = p.registry ∧
      Pipeline.Runs (download n p.registry) (distinctFiles p.modules) q.modules w w' := by
  obtain ⟨results, hsettles, hresults⟩ := settles_downloadAll h
  obtain ⟨values, hcollect, rfl⟩ := map_eq_ok hresults.symm
  exact ⟨rfl, rfl, hsettles.runs hcollect⟩

theorem downloadAll_eq_ok {p : ResolvedPackage} {q : InstalledPackage} {w w' : World}
    (ht : w.traffic.Faithful n) (h : downloadAll n p w = (.ok q, w')) :
    q.registry = p.registry ∧ q.modules = distinctFiles p.modules ∧
      ∃ files : List (MappedModule × String), files.map Prod.fst = q.modules ∧
        (∀ f ∈ files, p.registry.prepared n f.1.module.entrypoint = .ok f.2) ∧
        Writes files w.files w'.files := by
  obtain ⟨-, hregistry, hruns⟩ := downloadAll_runs h
  obtain ⟨hmodules, files, hfiles, htexts, hwrites⟩ := downloads ht hruns
  exact ⟨hregistry, hmodules, files, hfiles.trans hmodules.symm, htexts, hwrites⟩

/-- The stages of an installation with a root: its modules are entered, and then the files of those
that have different paths are written with the texts that the network has for them. -/
structure Staged (i : Installer) (n : Network) (p : InstalledPackage) (root : PackageModule)
    (files : List (MappedModule × String)) (w next : World) (t' : FileTree) : Prop where
  registry : p.registry ∈ i.registries
  mem_graph : root.entrypoint ∈ (p.registry.graph n root.entrypoint).entrypoints
  storage : root.storage = i.layout.storage root.name root.target root.version
  modules : p.modules = distinctFiles (i.mapped n p.registry root)
  fst : files.map Prod.fst = p.modules
  prepared : ∀ f ∈ files, p.registry.prepared n f.1.module.entrypoint = .ok f.2
  entered : ∃ traffic, Pipeline.Runs i.persist (i.mapped n p.registry root) (i.mapped n p.registry root)
    ⟨w.files, traffic⟩ next
  writes : Writes files next.files t'

theorem staged_of_found {request : PackageRequest} {p : ResolvedPackage} {q : InstalledPackage} {root : PackageModule}
    {w w' : World} (ht : w.traffic.Faithful n) (hf : i.found n request = .ok p)
    (hregistry : p.registry ∈ i.registries)
    (hroot : root.entrypoint ∈ (p.registry.graph n root.entrypoint).entrypoints)
    (hstorage : root.storage = i.layout.storage root.name root.target root.version)
    (hmodules : p.modules = i.mapped n p.registry root) (h : i.install n request w = (.ok q, w')) :
    q.registry = p.registry ∧ ∃ files next, i.Staged n q root files w next w'.files := by
  obtain ⟨hfind, htraffic⟩ := i.gives_find n request w.traffic ht
  rw [hf] at hfind
  rcases install_cases h with ⟨e, -, happ, -⟩ | ⟨found, hfound, ⟨e, -, happ⟩ | ⟨persisted, next, hpersist, hdownload⟩⟩
  · cases happ
  · cases happ
  · obtain rfl := Except.ok.inj (hfind.symm.trans hfound)
    obtain ⟨rfl, hkept, hruns⟩ := persistAll_eq_ok hpersist
    obtain ⟨hsame, hkeep, files, hfiles, htexts, hwrites⟩ := downloadAll_eq_ok (hkept ▸ htraffic) hdownload
    rw [hmodules, ← hsame] at hruns hkeep
    rw [← hsame] at hregistry hroot htexts
    exact ⟨hsame, files, next, hregistry, hroot, hstorage, hkeep, hfiles, htexts, ⟨_, hruns⟩, hwrites⟩

theorem install_staged {request : PackageRequest} {p : InstalledPackage} {w w' : World}
    (hr : ∀ r ∈ i.registries, r.client.base.Regular) (ht : w.traffic.Faithful n)
    (h : i.install n request w = (.ok p, w')) : ∃ version files next,
      i.Staged n p (i.rootOf p.registry request version) files w next w'.files := by
  obtain ⟨hfind, -⟩ := i.gives_find n request w.traffic ht
  rcases install_cases h with ⟨e, -, happ, -⟩ | ⟨found, hfound, -⟩
  · cases happ
  · have hf := hfind.symm.trans hfound
    obtain ⟨hregistry, version, hroot, hpackage⟩ := found_eq_ok hf
    obtain ⟨hsame, files, next, hstaged⟩ := staged_of_found ht hf hregistry
      (root_mem_graph (hr _ hregistry) hroot) rfl (congrArg ResolvedPackage.modules hpackage) h
    rw [← hsame] at hstaged
    exact ⟨version, files, next, hstaged⟩

/-- If the import map lasts, it holds all modules in the end. -/
theorem Staged.installed {p : InstalledPackage} {root : PackageModule} {files : List (MappedModule × String)}
    {w next : World} {t' : FileTree} (h : i.Staged n p root files w next t')
    (hl : Json.Lasting Json.maxDepth (ImportMap.documentIn i.importMapPath w.files)) :
    i.Installed n p root (ImportMap.documentIn i.importMapPath w.files) files next.files t' := by
  obtain ⟨traffic, hruns⟩ := h.entered
  have hholds : i.Holds ((i.mapped n p.registry root).foldl ImportMap.entered
      (ImportMap.documentIn i.importMapPath w.files)) next.files :=
    holds_persist_runs (w := ⟨w.files, traffic⟩) hruns hl
  refine ⟨h.registry, h.mem_graph, h.modules, h.fst, hholds, h.prepared, h.writes.written, ?_⟩
  rw [h.writes.written]
  refine hholds.written fun f hf => ?_
  have hmem := mem_of_mem_distinctFiles (h.modules ▸ h.fst ▸ List.mem_map_of_mem hf)
  exact described_storage h.storage (described_of_mem_mapped hmem)

theorem install_eq_ok {request : PackageRequest} {p : InstalledPackage} {w w' : World}
    (hr : ∀ r ∈ i.registries, r.client.base.Regular) (ht : w.traffic.Faithful n)
    (hl : Json.Lasting Json.maxDepth (ImportMap.documentIn i.importMapPath w.files))
    (h : i.install n request w = (.ok p, w')) : ∃ version files t,
      i.Installed n p (i.rootOf p.registry request version)
        (ImportMap.documentIn i.importMapPath w.files) files t w'.files := by
  obtain ⟨version, files, next, hstaged⟩ := install_staged hr ht h
  exact ⟨version, files, next.files, hstaged.installed hl⟩

end Installer

end WebModules
