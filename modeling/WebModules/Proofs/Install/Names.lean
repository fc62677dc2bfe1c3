import WebModules.Proofs.Install.Written

/-!
The names that stand in the files of a package are names that its import map has, as far as they
stand for modules.
-/

namespace WebModules

open Script Schedule Exploration

theorem Registry.regular_ofBase {number : Nat} {backend : Backend} {base : String} {r : Registry}
    (h : Registry.ofBase number backend base = .ok r) : r.client.base.Regular := by
  unfold Registry.ofBase at h
  split at h
  · rename_i client hclient
    cases h
    unfold Client.ofBase at hclient
    split at hclient
    · rename_i url hurl
      cases hclient
      exact Url.regular_parse hurl
    · cases hclient
  · cases h

theorem Backend.dotted_entrypoint (b : Backend) {name : String} (hn : name ≠ "") (target version : Option String) :
    Specifier.Dotted (b.entrypoint name target version).toList := by
  obtain ⟨c, r, hname⟩ := List.exists_cons_of_ne_nil (String.toList_eq_nil_iff.not.2 hn)
  unfold entrypoint
  cases b <;> cases target <;> exact ⟨c, _, by simp [hname, String.toList_append]; rfl⟩

example : Backend.unpkg.entrypoint "app" none (some "2.0.0") = "./app@2.0.0" := by
  decide +kernel

/-- A name that a module has been entered for in a scope has a path there. -/
theorem ImportMap.isSome_scoped?_foldl {m : MappedModule} {ms : List MappedModule} {directory name : String}
    (hm : m ∈ ms) (hs : m.scopes directory name) (document : Json) :
    (scoped? (ms.foldl entered document) directory name).isSome := by
  have hmem : m ∈ ms.filter (·.scopes directory name) := List.mem_filter.2 ⟨hm, hs⟩
  rw [scoped?_foldl]
  cases hlast : (ms.filter (·.scopes directory name)).getLast? with
  | none =>
      rw [List.getLast?_eq_none_iff.1 hlast] at hmem
      cases hmem
  | some last => rfl

namespace Installer

variable {i : Installer} {n : Network} {r : Registry}

/-- What a module of a graph refers to is imported by it, if it is a module that the registry knows. -/
theorem imports_of_identified (hr : r.client.base.Regular) {root importer : PackageModule}
    (hroot : Specifier.Dotted root.entrypoint.toList)
    (hmem : importer.entrypoint ∈ (r.graph n root.entrypoint).entrypoints)
    (hi : i.described n r root importer.entrypoint = some importer) {loaded child : LoadedModule}
    (hloaded : r.loaded n importer.entrypoint = .ok loaded) {specifiers further : List String}
    (hd : detect loaded.source = .ok specifiers) {specifier : String} (hs : specifier ∈ specifiers)
    {identity : ModuleIdentity}
    (hidentity : r.identified n (Specifier.join loaded.location specifier) = .ok identity)
    (hchild : r.loaded n (Specifier.join loaded.location specifier) = .ok child)
    (hparsed : detect child.source = .ok further) :
    i.Imports n r root importer
      (.identified i.layout identity (Specifier.join loaded.location specifier)) := by
  obtain ⟨_, hsettled⟩ := Registry.settled_graph hr n root.entrypoint
  obtain ⟨⟨_, children⟩, hedge, rfl⟩ := List.mem_map.1 hmem
  obtain ⟨hreachable, m, found, hm, hfound, rfl⟩ := (hsettled.mem_edges _ _).1 hedge
  obtain rfl : m = loaded := by simpa [hloaded] using hm.symm
  obtain rfl : found = specifiers := by simpa [hd] using hfound.symm
  have hjoined : Specifier.join m.location specifier ∈ found.map (Specifier.join m.location) :=
    List.mem_map_of_mem hs
  have hreached := hreachable.child (outcome_eq_ok_iff.2 ⟨m, found, hloaded, hd, rfl⟩) hjoined
  have hkey := (hsettled.mem_edges _ _).2 ⟨hreached, child, further, hchild, hparsed, rfl⟩
  have hother : Specifier.join m.location specifier ≠ root.entrypoint := fun heq =>
    Registry.not_dotted_join hr hloaded specifier (heq ▸ hroot)
  refine ⟨⟨_, hedge, hjoined⟩, hi, List.mem_map_of_mem hkey, ?_⟩
  simp only [described, PackageModule.identified, PackageModule.of, hother, if_false, hidentity]

theorem entered_of_imports {p : InstalledPackage} {root importer module : PackageModule} {document : Json}
    {files : List (MappedModule × String)} {t t' : FileTree}
    (h : i.Installed n p root document files t t') (himports : i.Imports n p.registry root importer module) :
    (ImportMap.scoped? (ImportMap.documentIn i.importMapPath t') importer.storage.relativeDir
      module.importName).isSome := by
  rw [h.kept.documentIn_eq]
  refine ImportMap.isSome_scoped?_foldl (m := ⟨module, some importer⟩)
    (mem_mapped.2 (.inr ⟨importer, module, himports, rfl⟩)) ?_ document
  simp [MappedModule.scopes]

end Installer

theorem Registry.loaded_of_identified {r : Registry} {n : Network} {path : String} {identity : ModuleIdentity}
    (h : r.identified n path = .ok identity) : ∃ m, r.loaded n path = .ok m := by
  unfold Registry.identified at h
  unfold Registry.loaded
  cases hserved : r.served n path with
  | error e => simp [hserved] at h
  | ok m => exact ⟨_, rfl⟩

theorem Registry.importedName_of_error {r : Registry} {n : Network} {location specifier : String}
    {e : RegistryError} (h : r.identified n (Specifier.join location specifier) = .error e) :
    r.importedName n location specifier = specifier := by
  unfold Registry.importedName
  rw [h]

theorem Registry.importedName_of_ok {r : Registry} {n : Network} {location specifier : String}
    {identity : ModuleIdentity} (h : r.identified n (Specifier.join location specifier) = .ok identity) :
    r.importedName n location specifier = identity.importName := by
  unfold Registry.importedName
  rw [h]

theorem Registry.prepared_eq_ok {r : Registry} {n : Network} {entrypoint text : String}
    (h : r.prepared n entrypoint = .ok text) : ∃ loaded specifiers,
      r.loaded n entrypoint = .ok loaded ∧ detect loaded.source = .ok specifiers ∧
        rewrite (ε := Empty) (fun specifier => .now (.ok (r.importedName n loaded.location specifier)))
          loaded.source = .ok text := by
  unfold Registry.prepared at h
  cases hloaded : r.loaded n entrypoint with
  | error e => simp [hloaded] at h
  | ok loaded =>
      simp only [hloaded] at h
      cases hrewrite : rewrite (ε := Empty)
          (fun specifier => .now (.ok (r.importedName n loaded.location specifier))) loaded.source with
      | error e => simp [hrewrite, Except.mapError] at h
      | ok rewritten =>
          simp only [hrewrite, Except.mapError, Except.ok.injEq] at h
          subst h
          cases hwalk : walk loaded.source with
          | error e => simp [rewrite, hwalk] at hrewrite
          | ok records =>
              have hdetect : detect loaded.source =
                  .ok ((Dependency.ofWalk records).map Dependency.specifier) := by
                simp only [detect, dependencies, hwalk, bind, Except.bind, pure, Except.pure]
              exact ⟨loaded, _, rfl, hdetect, hrewrite⟩

/-- The text that a registry has for a module, in which each specifier is as it was, or a name that
the import map has for the directory of the module, unless what it refers to is no module. -/
def Renamed (n : Network) (r : Registry) (document : Json) (m : PackageModule) (text : String) : Prop :=
  ∃ loaded specifiers, r.loaded n m.entrypoint = .ok loaded ∧ detect loaded.source = .ok specifiers ∧
    rewrite (ε := Empty) (fun specifier => .now (.ok (r.importedName n loaded.location specifier)))
      loaded.source = .ok text ∧
    ∀ specifier ∈ specifiers,
      let name := r.importedName n loaded.location specifier
      let place := Specifier.join loaded.location specifier
      name = specifier ∨ (ImportMap.scoped? document m.storage.relativeDir name).isSome ∨
        ∃ child e, r.loaded n place = .ok child ∧ detect child.source = .error e

/-- A network with a module that imports one other, of which the text is given. -/
def pairNetwork (text : String) : Network :=
  ⟨[("http://cdn.test/app", some ⟨200, "", some "/app@2.0.0", none⟩),
    ("http://cdn.test/app@2.0.0", some ⟨200, "import '/dep@1.0.0'", none, none⟩),
    ("http://cdn.test/dep@1.0.0", some ⟨200, text, none, none⟩)], true⟩

def mirror : Registry :=
  ⟨.unpkg, ⟨0, ⟨"http".toList, some ⟨[], "cdn.test".toList, none⟩, .segments [[]], none, none⟩⟩⟩

theorem ofBase_mirror : Registry.ofBase 0 mirror.backend "http://cdn.test/" = .ok mirror := by
  decide +kernel

/-- An installer for an empty project. -/
def mirrored : Installer := ⟨[mirror], .of "/project" "web_modules"⟩

theorem ofBase_mirrored : ∀ r ∈ mirrored.registries, ∃ number base, Registry.ofBase number r.backend base = .ok r := by
  intro r hr
  obtain rfl := List.mem_singleton.1 hr
  exact ⟨0, _, ofBase_mirror⟩

theorem documentIn_mirrored : ImportMap.documentIn mirrored.importMapPath .empty = .object [] := by rfl

theorem lasting_mirrored : Json.Lasting Json.maxDepth (ImportMap.documentIn mirrored.importMapPath .empty) := by
  rw [documentIn_mirrored]
  exact Json.lasting_empty

/-- The module that a package of two modules in a row is asked for by. -/
def appModule : PackageModule := .of mirrored.layout "app" none "2.0.0" "./app"

def depModule : PackageModule := .of mirrored.layout "dep" none "1.0.0" "/dep@1.0.0"

theorem pair_installed : ∃ p w', mirrored.install (pairNetwork "") ⟨"app", none, none⟩ ⟨.empty, .empty⟩ = (.ok p, w') ∧
    p.registry = mirror ∧ p.root? = some appModule := by
  have houtcome : (mirrored.install (pairNetwork "") ⟨"app", none, none⟩ ⟨.empty, .empty⟩).1.toOption.map
      (fun p => (p.registry, p.root?)) = some (mirror, some appModule) := by
    simp only [Installer.install_eq]
    decide +kernel
  obtain ⟨p, w', h, hoffers⟩ := exists_ok_of_map houtcome
  obtain ⟨hregistry, hroot⟩ := Prod.mk.inj hoffers
  exact ⟨p, w', h, hregistry, hroot⟩

end WebModules
