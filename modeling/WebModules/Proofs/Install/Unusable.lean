import WebModules.Proofs.Install.Failed
import WebModules.Proofs.Install.Linked

/-!
What modules that cannot be used do to the package that they belong to.  A module that is not served,
that does not parse or that the registry cannot identify is left out, and all modules that are reached
without it are installed all the same.  But one that is identified and cannot be rewritten makes the
installation fail.
-/

namespace WebModules

open Exploration Script Schedule

/-- A failure to make a directory or to write a file. -/
def InstallError.OfFiles : InstallError → Prop
  | .file .. | .importMap _ => True
  | _ => False

namespace Registry

/-- A registry serves a module that is one in its language. -/
def Parses (r : Registry) (n : Network) (entrypoint : String) : Prop :=
  ∃ loaded specifiers, r.loaded n entrypoint = .ok loaded ∧ detect loaded.source = .ok specifiers

variable {r : Registry} {n : Network} {root entrypoint : String}

theorem parses_of_mem_graph (hr : r.client.base.Regular)
    (h : entrypoint ∈ (r.graph n root).entrypoints) : r.Parses n entrypoint := by
  obtain ⟨_, hsettled⟩ := settled_graph hr n root
  obtain ⟨⟨_, children⟩, hedge, rfl⟩ := List.mem_map.1 h
  obtain ⟨-, loaded, specifiers, hloaded, hparsed, -⟩ := (hsettled.mem_edges _ _).1 hedge
  exact ⟨loaded, specifiers, hloaded, hparsed⟩

/-- A module that parses can be rewritten unless one of its dependencies lies within another. -/
theorem Parses.prepared_eq_error (h : r.Parses n entrypoint) {e : InstallError}
    (he : r.prepared n entrypoint = .error e) :
    ∃ first second, e = .rewrite entrypoint (.overlap first second) := by
  obtain ⟨loaded, specifiers, hloaded, hparsed⟩ := h
  cases hwalk : walk loaded.source with
  | error failure =>
      simp only [detect, dependencies, hwalk, bind, Except.bind] at hparsed
      cases hparsed
  | ok records =>
      rw [prepared, hloaded] at he
      simp only [rewrite, hwalk] at he
      cases hplan : Rewrite.plan (ε := Empty) records with
      | error failure =>
          rw [Rewrite.walked, hplan] at he
          rw [Rewrite.plan] at hplan
          split at hplan
          · cases hplan
            cases he
            exact ⟨_, _, rfl⟩
          · cases hplan
      | ok ds =>
          rw [Rewrite.walked_eq hplan, Rewrite.resolveAll_eq_ok fun _ _ => rfl] at he
          cases he

end Registry

namespace Installer

variable {i : Installer} {n : Network} {r : Registry}

/-- What is reached from a root by way of modules that can be used: each is served and parses, and the
registry can tell what it is. -/
inductive Usable (i : Installer) (n : Network) (r : Registry) (root : PackageModule) : String → Prop
  | root : Usable i n r root root.entrypoint
  | child {importer specifier : String} {loaded : LoadedModule} {specifiers : List String}
      (parent : Usable i n r root importer) (loads : r.loaded n importer = .ok loaded)
      (detects : detect loaded.source = .ok specifiers) (mem : specifier ∈ specifiers)
      (parses : r.Parses n (Specifier.join loaded.location specifier))
      (known : (i.described n r root (Specifier.join loaded.location specifier)).isSome) :
      Usable i n r root (Specifier.join loaded.location specifier)

theorem Usable.reaches (hr : r.client.base.Regular) {root : PackageModule} {entrypoint : String}
    (hroot : root.entrypoint ∈ (r.graph n root.entrypoint).entrypoints) (h : i.Usable n r root entrypoint) :
    (r.graph n root.entrypoint).Reaches (i.Kept n r root (r.graph n root.entrypoint)) root.entrypoint entrypoint := by
  obtain ⟨_, hsettled⟩ := Registry.settled_graph hr n root.entrypoint
  induction h with
  | root => exact .root ⟨hroot, by simp [described]⟩
  | @child importer specifier loaded specifiers parent loads detects mem parses known ih =>
      obtain ⟨⟨_, children⟩, hedge, rfl⟩ := List.mem_map.1 ih.through.1
      obtain ⟨hreachable, m, found, hm, hfound, rfl⟩ := (hsettled.mem_edges _ _).1 hedge
      obtain rfl : m = loaded := by simpa [loads] using hm.symm
      obtain rfl : found = specifiers := by simpa [detects] using hfound.symm
      have hjoined : Specifier.join m.location specifier ∈ found.map (Specifier.join m.location) :=
        List.mem_map_of_mem mem
      obtain ⟨child, further, hchild, hparsed⟩ := parses
      have hreached := hreachable.child (outcome_eq_ok_iff.2 ⟨m, found, hm, hfound, rfl⟩) hjoined
      have hkey := (hsettled.mem_edges _ _).2 ⟨hreached, child, further, hchild, hparsed, rfl⟩
      exact .child ih ⟨_, hedge, hjoined⟩ ⟨List.mem_map_of_mem hkey, known⟩

/-- Whatever else its modules refer to, a package has all that can be used. -/
theorem Usable.mem_mapped (hr : r.client.base.Regular) {root : PackageModule} {entrypoint : String}
    (hroot : root.entrypoint ∈ (r.graph n root.entrypoint).entrypoints) (h : i.Usable n r root entrypoint) :
    ∃ m ∈ i.mapped n r root, m.module.entrypoint = entrypoint := by
  have hlisted := listed_of_reaches (Traffic.faithful_empty n) (h.reaches hr hroot)
  rwa [(i.gives_modulesOf n r root _ .empty (Traffic.faithful_empty n)).1] at hlisted

theorem found_eq_of_prepared {request : PackageRequest} {version text : String} (hr : r.client.base.Regular)
    (hfirst : i.registries.find? (fun r => r.offers n request.name request.target request.version) = some r)
    (hversion : r.offered n request.name request.target request.version = .ok version)
    (hroot : r.prepared n (i.rootOf r request version).entrypoint = .ok text) :
    i.found n request = .ok ⟨request, r, i.mapped n r (i.rootOf r request version)⟩ ∧
      (i.rootOf r request version).entrypoint ∈ (r.graph n (i.rootOf r request version).entrypoint).entrypoints := by
  obtain ⟨_, hsettled⟩ := Registry.settled_graph hr n (i.rootOf r request version).entrypoint
  obtain ⟨loaded, specifiers, hloaded, hdetect, -⟩ := Registry.prepared_eq_ok hroot
  have hnone : (r.graph n (i.rootOf r request version).entrypoint).failures.lookup
      (i.rootOf r request version).entrypoint = none := by
    rw [List.lookup_eq_none_iff]
    rintro ⟨e, failure⟩ hmem
    refine bne_iff_ne.2 fun heq => ?_
    subst heq
    rcases ((hsettled.mem_failures _ _).1 hmem).2 with ⟨x, hx, -⟩ | ⟨m, x, hm, hx, -⟩
    · rw [hloaded] at hx
      cases hx
    · rw [hloaded] at hm
      cases hm
      rw [hdetect] at hx
      cases hx
  refine ⟨?_, root_mem_graph hr hnone⟩
  simp only [found, hfirst, hversion, hnone]

/-! How the stages fail -/

theorem writeModule_eq_error {storage : Storage} {text : String} {t : FileTree} {e : InstallError}
    (h : (writeModule storage text t).1 = .error e) : e.OfFiles := by
  unfold writeModule at h
  split at h
  · cases h
    trivial
  · split at h
    · cases h
    · cases h
      trivial

theorem persist_eq_error {m : MappedModule} {w : World} {e : InstallError} (h : (i.persist m w).1 = .error e) :
    e.OfFiles := by
  rw [persist_world] at h
  split at h
  · cases h
  · cases h
    trivial

theorem faithful_download (m : MappedModule) (w : World) (ht : w.traffic.Faithful n) :
    (download n r m w).2.traffic.Faithful n := by
  have hkept := (gives_prepareText r n m.module.entrypoint w.traffic ht).2
  rw [download_eq]
  cases hp : prepareText n r m.module.entrypoint w.traffic with
  | mk prepared traffic =>
      rw [hp] at hkept
      cases prepared with
      | error e => exact hkept
      | ok text =>
          dsimp only
          split <;> exact hkept

theorem download_eq_error {m : MappedModule} {w : World} {e : InstallError} (ht : w.traffic.Faithful n)
    (h : (download n r m w).1 = .error e) : e.OfFiles ∨ r.prepared n m.module.entrypoint = .error e := by
  have hgives := (gives_prepareText r n m.module.entrypoint w.traffic ht).1
  rw [download_eq] at h
  cases hp : prepareText n r m.module.entrypoint w.traffic with
  | mk prepared traffic =>
      rw [hp] at h hgives
      cases prepared with
      | error failure =>
          cases h
          exact .inr hgives.symm
      | ok text =>
          dsimp only at h
          split at h
          · rename_i failure files hwrite
            cases h
            exact .inl (writeModule_eq_error (congrArg Prod.fst hwrite))
          · cases h

/-- An installation of what has been found fails only because of files, or because of a module that
cannot be prepared. -/
theorem install_eq_error_of_found {request : PackageRequest} {p : ResolvedPackage} {w w' : World} {e : InstallError}
    (ht : w.traffic.Faithful n) (hf : i.found n request = .ok p) (h : i.install n request w = (.error e, w')) :
    e.OfFiles ∨ ∃ m ∈ distinctFiles p.modules, p.registry.prepared n m.module.entrypoint = .error e := by
  obtain ⟨hfind, htraffic⟩ := i.gives_find n request w.traffic ht
  rw [hf] at hfind
  rcases install_cases h with ⟨failure, hnone, -⟩ | ⟨found, hfound, ⟨failure, hpersist, happ⟩ | ⟨persisted, next, hpersist, hdownload⟩⟩
  · cases hfind.symm.trans hnone
  · cases happ
    obtain ⟨results, hsettles, hcollect⟩ := persistAll_eq_error hpersist
    obtain ⟨m, -, before, -, hturn⟩ := hsettles.exists_of_mem (I := fun _ => True) trivial
      (fun _ _ _ _ => trivial) (Pipeline.mem_of_collect_eq_error hcollect)
    exact .inl (persist_eq_error hturn)
  · obtain rfl := Except.ok.inj (hfind.symm.trans hfound)
    obtain ⟨rfl, hkept, -⟩ := persistAll_eq_ok hpersist
    obtain ⟨results, hsettles, hcollect⟩ := downloadAll_eq_error hdownload
    have hfaithful : next.traffic.Faithful n := hkept ▸ htraffic
    obtain ⟨m, hm, before, hbefore, hturn⟩ := hsettles.exists_of_mem (I := fun w => w.traffic.Faithful n)
      hfaithful (fun m _ w hw => faithful_download m w hw) (Pipeline.mem_of_collect_eq_error hcollect)
    exact (download_eq_error hbefore hturn).imp_right fun hprepared => ⟨m, hm, hprepared⟩

end Installer

/-- A package of which one module does not parse. -/
def brokenNetwork : Network :=
  ⟨[("http://cdn.test/app", some ⟨200, "", some "/app@2.0.0", none⟩),
    ("http://cdn.test/app@2.0.0", some ⟨200, "import '/bad@1.0.0';import '/dep@1.0.0'", none, none⟩),
    ("http://cdn.test/bad@1.0.0", some ⟨200, "import", none, none⟩),
    ("http://cdn.test/dep@1.0.0", some ⟨200, "", none, none⟩)], true⟩

theorem usable_broken : mirrored.Usable brokenNetwork mirror appModule depModule.entrypoint := by
  have hloaded : mirror.loaded brokenNetwork appModule.entrypoint =
      .ok ⟨"import '/bad@1.0.0';import '/dep@1.0.0'", "/app@2.0.0"⟩ := by
    decide +kernel
  have hdetect : detect "import '/bad@1.0.0';import '/dep@1.0.0'" = .ok ["/bad@1.0.0", "/dep@1.0.0"] := by
    decide +kernel
  have hmem : "/dep@1.0.0" ∈ ["/bad@1.0.0", "/dep@1.0.0"] := by
    simp
  have hparses : mirror.Parses brokenNetwork "/dep@1.0.0" :=
    ⟨⟨"", "/dep@1.0.0"⟩, [], by decide +kernel, by decide +kernel⟩
  exact .child .root hloaded hdetect hmem hparses (by decide +kernel)

/-- A network in which another registry also answers, with a module that it cannot identify. -/
def sideNetwork : Network :=
  ⟨[("http://side.test/app", some ⟨200, "", none, none⟩),
    ("http://cdn.test/app", some ⟨200, "", some "/app@2.0.0", none⟩),
    ("http://cdn.test/app@2.0.0", some ⟨200, "", none, none⟩)], true⟩

def side : Registry :=
  ⟨.unpkg, ⟨1, ⟨"http".toList, some ⟨[], "side.test".toList, none⟩, .segments [[]], none, none⟩⟩⟩

end WebModules
