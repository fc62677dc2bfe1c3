import WebModules.Proofs.Install.Names

/-!
What the import map of a project has for the modules of a package that import each other.
-/

namespace WebModules

open Schedule

namespace Installer

variable {i : Installer} {n : Network}

theorem distinctFiles_cons (m : MappedModule) (ms : List MappedModule) :
    ∃ others, distinctFiles (m :: ms) = m :: others := by
  have hfold (ms kept : List MappedModule) : ∃ others, ms.foldl (fun kept m =>
      if kept.any fun k => Path.same k.module.storage.path m.module.storage.path then kept
      else kept ++ [m]) (m :: kept) = m :: others := by
    induction ms generalizing kept with
    | nil => exact ⟨kept, rfl⟩
    | cons next ms ih =>
        rw [List.foldl_cons]
        split
        · exact ih kept
        · exact ih (kept ++ [next])
  exact hfold ms []

-- The file of a target has no directory of its own, so the second module is left out.
example :
    let m : MappedModule := ⟨.of (.of "/project" "web_modules") "app" none "2.0.0" "./app", none⟩
    let lib : MappedModule := ⟨.of (.of "/project" "web_modules") "app" (some "lib/app.js") "2.0.0" "./lib", none⟩
    distinctFiles [m, lib] = [m] := by
  decide +kernel

theorem root_of_modules {p : InstalledPackage} {root : PackageModule}
    (h : p.modules = distinctFiles (i.mapped n p.registry root)) : p.root? = some root := by
  obtain ⟨others, hothers⟩ : ∃ others, distinctFiles (i.mapped n p.registry root) = ⟨root, none⟩ :: others :=
    distinctFiles_cons _ _
  rw [InstalledPackage.root?, h, hothers]
  rfl

theorem Installed.root {p : InstalledPackage} {root : PackageModule} {document : Json}
    {files : List (MappedModule × String)} {t t' : FileTree} (h : i.Installed n p root document files t t') :
    p.root? = some root :=
  root_of_modules h.modules

end Installer

/-- What is known of a run in an empty project as soon as it is known to end well. -/
theorem mirrored_staged {n : Network} {request : PackageRequest} {root : PackageModule}
    (h : (mirrored.install n request ⟨.empty, .empty⟩).1.toOption.bind InstalledPackage.root? = some root) :
    ∃ p w' files next, mirrored.install n request ⟨.empty, .empty⟩ = (.ok p, w') ∧ p.registry = mirror ∧
      mirrored.Staged n p root files ⟨.empty, .empty⟩ next w'.files := by
  have hregular (r : Registry) (hmem : r ∈ mirrored.registries) : r.client.base.Regular := by
    obtain ⟨number, base, hbase⟩ := ofBase_mirrored r hmem
    exact Registry.regular_ofBase hbase
  cases hrun : mirrored.install n request ⟨.empty, .empty⟩ with
  | mk result w' =>
      rw [hrun] at h
      cases result with
      | error e => cases h
      | ok p =>
          obtain ⟨version, files, next, hstaged⟩ := Installer.install_staged hregular
            (Traffic.faithful_empty _) hrun
          obtain rfl : root = _ := Option.some.inj (h.symm.trans (Installer.root_of_modules hstaged.modules))
          exact ⟨p, w', files, next, rfl, List.mem_singleton.1 hstaged.registry, hstaged⟩

theorem mirrored_installed {n : Network} {request : PackageRequest} {root : PackageModule}
    (h : (mirrored.install n request ⟨.empty, .empty⟩).1.toOption.bind InstalledPackage.root? = some root) :
    ∃ p w' files t, mirrored.install n request ⟨.empty, .empty⟩ = (.ok p, w') ∧ p.registry = mirror ∧
      mirrored.Installed n p root (.object []) files t w'.files := by
  obtain ⟨p, w', files, next, hrun, hregistry, hstaged⟩ := mirrored_staged h
  have hinstalled := hstaged.installed lasting_mirrored
  rw [documentIn_mirrored] at hinstalled
  exact ⟨p, w', files, next.files, hrun, hregistry, hinstalled⟩

/-- Two modules of one directory import two versions of a package, and the later one counts for both. -/
def chainNetwork : Network :=
  ⟨[("http://cdn.test/app", some ⟨200, "", some "/app@2.0.0", none⟩),
    ("http://cdn.test/app@2.0.0", some ⟨200, "import '/dep@1.0.0'", none, none⟩),
    ("http://cdn.test/dep@1.0.0", some ⟨200, "import '/app@2.0.0/b.js'", none, none⟩),
    ("http://cdn.test/app@2.0.0/b.js", some ⟨200, "import '/dep@2.0.0'", none, none⟩),
    ("http://cdn.test/dep@2.0.0", some ⟨200, "", none, none⟩)], true⟩

end WebModules
