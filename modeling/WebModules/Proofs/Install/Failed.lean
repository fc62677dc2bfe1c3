import WebModules.Proofs.ImportMap.Entries
import WebModules.Proofs.Install.Known
import WebModules.Proofs.Install.Texts

/-!
What is left of an installation that fails.  If it fails before files are written, then the import map has
no new entries.  After that it has all of them, though the files of some modules may be missing: of those
that could not be fetched, rewritten or written.
-/

namespace WebModules

open FileTree Schedule

namespace Installer

variable {i : Installer} {n : Network} {r : Registry}

theorem preserves_persistModule (i : Installer) (m : MappedModule) (w : World) :
    w.files.Preserves (i.persist m w).2.files := by
  have hpreserves := ImportMap.preserves_persist i.importMapPath (ImportMap.fragment m) w.files
  rw [persist_world]
  cases h : ImportMap.persist i.importMapPath (ImportMap.fragment m) w.files with
  | mk result files =>
      rw [h] at hpreserves
      cases result <;> exact hpreserves

theorem preserves_download (n : Network) (r : Registry) (m : MappedModule) (w : World) :
    w.files.Preserves (download n r m w).2.files := by
  rcases files_download n r m w with hsame | ⟨text, hwritten⟩
  · rw [hsame]
    exact .refl _
  · rw [hwritten]
    exact preserves_writeModule m.module.storage text w.files

/-- A stage of work that leaves files where they are leaves them there as a whole. -/
theorem preserves_settles {α : Type} {work : MappedModule → StateM World (Except InstallError α)}
    (hwork : ∀ (m : MappedModule) (w : World), w.files.Preserves (work m w).2.files) {ms : List MappedModule}
    {results : List (Except InstallError α)} {w w' : World} (h : Pipeline.Settles work ms results w w') :
    w.files.Preserves w'.files :=
  h.relates (R := fun w w' : World => w.files.Preserves w'.files) (fun w => .refl w.files)
    (fun _ _ _ hfirst hsecond => hfirst.trans hsecond) fun m _ w => hwork m w

/-- Modules are not written where the import map is. -/
theorem read_map_download (m : MappedModule) (hm : i.layout.Knows m.module) (w : World) {text : String}
    (h : w.files.read i.importMapPath = .ok text) : (download n r m w).2.files.read i.importMapPath = .ok text := by
  rcases files_download n r m w with hsame | ⟨new, hwritten⟩
  · rwa [hsame]
  · rw [hwritten]
    have hne := i.layout.lastPart?_ne m.module.name m.module.target m.module.version
    rw [← hm.storage] at hne
    exact (keeps_writeModule _ new w.files).read hne h

/-- The import map stays as it is while files of modules are written, as far as they can be. -/
theorem read_map_downloads {ms : List MappedModule} {results : List (Except InstallError MappedModule)} {w w' : World}
    (h : Pipeline.Settles (download n r) ms results w w') (hm : ∀ m ∈ ms, i.layout.Knows m.module) {text : String}
    (hr : w.files.read i.importMapPath = .ok text) : w'.files.read i.importMapPath = .ok text :=
  h.relates (R := fun w w' : World => ∀ text, w.files.read i.importMapPath = .ok text →
      w'.files.read i.importMapPath = .ok text)
    (fun _ _ hread => hread) (fun _ _ _ hfirst hsecond text hread => hsecond text (hfirst text hread))
    (fun m hmem w _ hread => read_map_download m (hm m hmem) w hread) text hr

theorem documentIn_downloads {ms : List MappedModule} {results : List (Except InstallError MappedModule)} {w w' : World}
    (h : Pipeline.Settles (download n r) ms results w w') (hm : ∀ m ∈ ms, i.layout.Knows m.module)
    (hr : w.files.Readable i.importMapPath) :
    ImportMap.documentIn i.importMapPath w'.files = ImportMap.documentIn i.importMapPath w.files := by
  obtain ⟨text, hread⟩ := hr
  rw [ImportMap.documentIn, ImportMap.documentIn, hread, read_map_downloads h hm hread]

/-- The file of a module is there unless the file of its path could not be written. -/
theorem readable_or_failed {ms : List MappedModule} {results : List (Except InstallError MappedModule)} {w w' : World}
    (h : Pipeline.Settles (download n r) (distinctFiles ms) results w w') {m : MappedModule} (hm : m ∈ ms)
    (hknown : i.layout.Knows m.module) : w'.files.Readable m.module.storage.path ∨
      ∃ k failure, (k, .error failure) ∈ (distinctFiles ms).zip results ∧
        Path.same k.module.storage.path m.module.storage.path = true := by
  obtain ⟨k, hk, hsame⟩ := exists_mem_distinctFiles hm
  obtain ⟨before, after, result, left, right, hturn, hzip, hrest⟩ := h.exists_turn hk
  cases result with
  | error failure => exact .inr ⟨k, failure, hzip, hsame⟩
  | ok written =>
      left
      obtain ⟨text, hread⟩ := preserves_settles (preserves_download n r) hrest _ (readable_download hturn)
      obtain ⟨directory, last, hnames, hnode⟩ := read_eq_ok_iff.1 hread
      obtain ⟨steps, last', hplain, hslash⟩ := i.layout.plain_path m.module.name m.module.target m.module.version
      rw [← hknown.storage] at hplain hslash
      have hown := hnames.of_steps (Path.steps_eq_of_same hsame) hplain hslash
      refine ⟨text, read_eq_ok_iff.2 ⟨directory, last', hown, ?_⟩⟩
      rw [hown.place_eq, ← hnode, hnames.place_eq, Path.place, Path.place, Path.steps_eq_of_same hsame]

theorem persistAll_eq_error {p : ResolvedPackage} {w w' : World} {e : InstallError}
    (h : i.persistAll p w = (.error e, w')) : ∃ results,
      Pipeline.Settles i.persist p.modules results w w' ∧ Pipeline.collect results = .error e := by
  obtain ⟨results, hsettles, hresults⟩ := settles_persistAll h
  exact ⟨results, hsettles, map_eq_error hresults.symm⟩

theorem downloadAll_eq_error {p : ResolvedPackage} {w w' : World} {e : InstallError}
    (h : downloadAll n p w = (.error e, w')) : ∃ results,
      Pipeline.Settles (download n p.registry) (distinctFiles p.modules) results w w' ∧
        Pipeline.collect results = .error e := by
  obtain ⟨results, hsettles, hresults⟩ := settles_downloadAll h
  exact ⟨results, hsettles, map_eq_error hresults.symm⟩

/-- The stages that an installation can fail in: modules are found, they are entered in the import map,
and their files are written. -/
theorem install_eq_error {request : PackageRequest} {w w' : World} {e : InstallError}
    (h : i.install n request w = (.error e, w')) : w'.files = w.files ∨
      ∃ p, (i.find n request w.traffic).1 = .ok p ∧
        ((∃ results, Pipeline.Settles i.persist p.modules results ⟨w.files, (i.find n request w.traffic).2⟩ w' ∧
            Pipeline.collect results = .error e) ∨
          ∃ next results, Pipeline.Runs i.persist p.modules p.modules ⟨w.files, (i.find n request w.traffic).2⟩ next ∧
            Pipeline.Settles (download n p.registry) (distinctFiles p.modules) results next w' ∧
            Pipeline.collect results = .error e) := by
  rcases install_cases h with ⟨-, -, -, hsame⟩ | ⟨p, hfound, ⟨failure, hpersist, happ⟩ | ⟨p', next, hpersist, hdownload⟩⟩
  · exact .inl hsame
  · cases happ
    exact .inr ⟨p, hfound, .inl (persistAll_eq_error hpersist)⟩
  · obtain ⟨rfl, -, hruns⟩ := persistAll_eq_ok hpersist
    obtain ⟨results, hsettles, hcollect⟩ := downloadAll_eq_error hdownload
    exact .inr ⟨p', hfound, .inr ⟨next, results, hruns, hsettles, hcollect⟩⟩

end Installer

/-- A network with a single module. -/
def soleNetwork : Network :=
  ⟨[("http://cdn.test/app", some ⟨200, "", some "/app@2.0.0", none⟩),
    ("http://cdn.test/app@2.0.0", some ⟨200, "", none, none⟩)], true⟩

/-- A project in which a file stands where the directory of the module is to be made. -/
def obstructed : FileTree :=
  ⟨[(["project"], .directory), (["project", "web_modules"], .directory), (["project", "web_modules", "app"], .file "")]⟩

theorem obstructed_outcome :
    ∃ e w', mirrored.install soleNetwork ⟨"app", none, none⟩ ⟨obstructed, .empty⟩ = (.error e, w') ∧
      ImportMap.target? (ImportMap.documentIn mirrored.importMapPath w'.files) none "app" =
        some appModule.storage.relativePath ∧
      w'.files.read appModule.storage.path = .error .notADirectory := by
  have houtcome : let outcome := mirrored.install soleNetwork ⟨"app", none, none⟩ ⟨obstructed, .empty⟩
      outcome.1.toBool = false ∧
        ImportMap.target? (ImportMap.documentIn mirrored.importMapPath outcome.2.files) none "app" =
          some appModule.storage.relativePath ∧
        outcome.2.files.read appModule.storage.path = .error .notADirectory := by
    simp only [Installer.install_eq]
    decide +kernel
  obtain ⟨hfails, hafter, hread⟩ := houtcome
  obtain ⟨e, w', h⟩ := exists_error hfails
  rw [h] at hafter hread
  exact ⟨e, w', h, hafter, hread⟩

theorem obstructed_before : ImportMap.target? (ImportMap.documentIn mirrored.importMapPath obstructed) none "app" = none := by
  rfl

end WebModules
