import WebModules.Proofs.Install.Removed

/-!
What the version of a request decides when the package is removed.  It decides where the package's own
file is looked for, and nothing else: the name leaves the import map whichever version it stands for, and
no version has to be installed.
-/

namespace WebModules

namespace ImportMap

variable {m left left' : ImportMap} {name owner owner' : String} {removal removal' : Removal}

/-- What a map comes to does not depend on the directory of the module that the name stood for. -/
theorem Removes.unique (h : Removes m left name owner removal) (h' : Removes m left' name owner' removal') :
    left = left' := by
  have himports : left.imports = left'.imports :=
    Dictionary.ext_get? fun other => (h.imports other).trans (h'.imports other).symm
  have hscopes : left.scopes = left'.scopes := by
    refine Dictionary.ext_get? fun directory => ?_
    by_cases hneeds : (m.without name).Needs directory
    · rw [h.kept directory hneeds, h'.kept directory hneeds]
    · rw [h.dropped directory hneeds, h'.dropped directory hneeds]
  cases left
  cases left'
  rw [ImportMap.mk.injEq]
  exact ⟨himports, hscopes⟩

end ImportMap

namespace Installer

open FileTree WebModules.Path

variable {i : Installer} {request : PackageRequest} {t t' : FileTree} {version : String}

theorem removeFile_eq_error {s : Store} {file : String} {e : StoreError}
    (h : s.removeFile file t = (.error e, t')) : ∃ cause, e = .file file cause := by
  unfold Store.removeFile at h
  dsimp only at h
  split at h
  · cases h
  · cases h
  · rename_i cause _ _
    exact ⟨cause, (Except.error.inj (congrArg Prod.fst h)).symm⟩

theorem removeFiles_eq_error {files : List String} {e : StoreError} (h : i.removeFiles files t = (.error e, t')) :
    ∃ path cause, e = .file path cause := by
  induction files generalizing t with
  | nil => cases h
  | cons file files ih =>
      cases hfirst : i.store.removeFile (i.layout.pathFor file) t with
      | mk result next =>
          simp only [removeFiles, bind, StateT.bind, hfirst] at h
          cases result with
          | error first =>
              cases h
              exact ⟨_, removeFile_eq_error hfirst⟩
          | ok first =>
              cases hrest : i.removeFiles files next with
              | mk result last =>
                  simp only [StateT.bind, hrest] at h
                  cases result with
                  | error later =>
                      cases h
                      exact ih hrest
                  | ok more => cases h

/-- A removal of a version fails only when the map or a file cannot be changed. -/
theorem remove_eq_error {e : InstallError} (hv : i.versionToRemove request t = .ok version)
    (h : i.remove request t = (.error e, t')) :
    (∃ cause, e = .importMap cause) ∨ ∃ path cause, e = .store (.file path cause) := by
  rw [remove] at h
  simp only [bind, StateT.bind, get, getThe, MonadStateOf.get, StateT.get, pure, hv] at h
  cases hmap : ImportMap.removeDependency i.importMapPath (importName request.name request.target)
      (i.layout.storage request.name request.target version).relativeDir t with
  | mk result middle =>
      simp only [hmap] at h
      cases result with
      | error cause =>
          cases h
          exact .inl ⟨cause, rfl⟩
      | ok removal =>
          cases hfiles : i.removeFiles (unneeded removal (i.layout.storage request.name request.target version)) middle with
          | mk result last =>
              simp only [StateT.bind, hfiles] at h
              cases result with
              | error cause =>
                  cases h
                  obtain ⟨path, cause, rfl⟩ := removeFiles_eq_error hfiles
                  exact .inr ⟨path, cause, rfl⟩
              | ok paths => cases h

/-- Whichever version is asked for, installed or not, and whichever version the name stands for, the
removal takes the name out of the map with all that only the name keeps. -/
theorem remove_any_version (hversion : request.version = some version) :
    (∀ e t', i.remove request t = (.error e, t') →
      (∃ cause, e = .importMap cause) ∨ ∃ path cause, e = .store (.file path cause)) ∧
    ∀ text document m removed t', t.read i.importMapPath = .ok text → Json.read text = .ok document →
      ImportMap.ofJson? document = some m →
      (∀ p, m.Maps p → place (i.layout.pathFor p) ≠ place i.importMapPath) →
      i.remove request t = (.ok removed, t') → removed.request = request ∧
      ∃ left, (∀ owner, (m.remove (importName request.name request.target) owner).1 = left) ∧
        ImportMap.Removes m left (importName request.name request.target)
          (i.layout.storage request.name request.target version).relativeDir removed.removal ∧
        t'.HasFile i.importMapPath ((left.replaceIn document).pretty ++ "\n") ∧
        ∀ p, m.Maps p → ¬ left.Maps p → t'.find (i.layout.pathFor p) = .error .notFound := by
  have hv : i.versionToRemove request t = .ok version := by
    rw [versionToRemove, hversion]
  refine ⟨fun e t' h => remove_eq_error hv h, fun text document m removed t' hr hj hm hmap h => ?_⟩
  obtain ⟨left, hremoves, hrequest, hfiles⟩ := remove_eq_ok hr hj hm hv h
  obtain ⟨hloses, hgone⟩ := removeFiles_eq_ok hfiles
  refine ⟨by rw [hrequest, ← hversion], left, fun owner => (ImportMap.removes_remove m _ owner).unique hremoves,
    hremoves, ?_, fun p hmaps hnot => hgone p ((mem_unneeded_iff hremoves _).2 ⟨.inl hmaps, hnot⟩)⟩
  apply hloses.hasFile (hasFile_of_read (read_of_write (write_existing hr _)))
  intro hmem
  obtain ⟨p, hp, hplace⟩ := List.mem_map.1 hmem
  rcases ((mem_unneeded_iff hremoves _).1 hp).1 with hmaps | rfl
  · exact hmap p hmaps hplace
  · exact i.layout.place_ne _ _ _ hplace

/-- A project with two versions of a package, of which the name stands for the second. -/
def twoVersionsProject : FileTree :=
  ⟨[(["project"], .directory), (["project", "web_modules"], .directory),
    (["project", "web_modules", "import-map.json"], .file "\x7b\"imports\":\x7b\"a\":\"/web_modules/a/2/a.js\"\x7d\x7d"),
    (["project", "web_modules", "a"], .directory), (["project", "web_modules", "a", "1"], .directory),
    (["project", "web_modules", "a", "1", "a.js"], .file ""),
    (["project", "web_modules", "a", "2"], .directory),
    (["project", "web_modules", "a", "2", "a.js"], .file "")]⟩

theorem remove_any_version_other : ∃ removed t',
    projectInstaller.remove ⟨"a", none, some "1"⟩ twoVersionsProject = (.ok removed, t') ∧
      removed.removal.imported = some "/web_modules/a/2/a.js" ∧
      t'.find "/project/web_modules/a/2/a.js" = .error .notFound := by
  obtain ⟨text, document, m, hr, hj, hm, hpaths⟩ := ImportMap.exists_of_paths twoVersionsProject
    projectInstaller.importMapPath (show _ = some ["/web_modules/a/2/a.js"] by decide +kernel)
  have htold : ((projectInstaller.remove ⟨"a", none, some "1"⟩ twoVersionsProject).1.toOption.map
      fun removed => (removed.removal.imported, removed.removal.orphaned)) =
        some (some "/web_modules/a/2/a.js", ["/web_modules/a/2/a.js"]) := by
    decide +kernel
  have hmap : ∀ p, m.Maps p → place (projectInstaller.layout.pathFor p) ≠ place projectInstaller.importMapPath := by
    intro p hp
    rw [← ImportMap.mem_paths_iff, hpaths] at hp
    revert p
    decide +kernel
  obtain ⟨removed, t', h, htold⟩ := exists_ok_of_map htold
  obtain ⟨himported, horphaned⟩ := Prod.mk.inj htold
  obtain ⟨-, left, -, hremoves, -, hgone⟩ := (remove_any_version rfl).2 text document m removed t' hr hj hm hmap h
  have ha : projectInstaller.layout.pathFor "/web_modules/a/2/a.js" = "/project/web_modules/a/2/a.js" := by
    decide +kernel
  obtain ⟨hmaps, hnot⟩ : m.Maps "/web_modules/a/2/a.js" ∧ ¬ left.Maps "/web_modules/a/2/a.js" := by
    rw [← hremoves.orphaned, horphaned]
    decide
  exact ⟨removed, t', h, himported, ha ▸ hgone _ hmaps hnot⟩

/-- A version that is not installed is removed, with the entry and the file of the one that is; and so is
one of two that are, with the entry and the file of the other one. -/
theorem remove_wrong_version :
    (projectInstaller.store.isInstalled "a" "3" twoVersionsProject = false ∧
      let outcome := projectInstaller.remove ⟨"a", none, some "3"⟩ twoVersionsProject
      outcome.1.toOption.isSome = true ∧
        (ImportMap.read projectInstaller.importMapPath outcome.2).imports.get? "a" = none ∧
        outcome.2.node? ["project", "web_modules", "a", "2", "a.js"] = none) ∧
    projectInstaller.store.versions "a" twoVersionsProject = ["1", "2"] ∧
      (ImportMap.read projectInstaller.importMapPath twoVersionsProject).imports.get? "a" =
        some "/web_modules/a/2/a.js" ∧
      let outcome := projectInstaller.remove ⟨"a", none, some "1"⟩ twoVersionsProject
      outcome.1.toOption.isSome = true ∧
        (ImportMap.read projectInstaller.importMapPath outcome.2).imports.get? "a" = none ∧
        outcome.2.node? ["project", "web_modules", "a", "2", "a.js"] = none := by
  decide +kernel

end Installer

end WebModules
