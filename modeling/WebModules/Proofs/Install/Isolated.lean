import WebModules.Proofs.Install.Outcomes

/-!
What is installed for a request does not depend on what is installed together with it, but for the order
in which its modules are found.
-/

namespace WebModules

open Schedule

namespace Installer

variable {i : Installer} {n : Network} {requests : List PackageRequest} {lasts : Prop} {request : PackageRequest}
  {w : World}

/-! What a batch comes to -/

theorem Batch.packages_of_outcomes? {b : Batch} {outcomes : List (PackageRequest × Except InstallError InstalledPackage)}
    (h : b.outcomes? = some outcomes) : b.packages = outcomes.map fun x => (x.1, .ended x.2) := by
  obtain ⟨packages, w⟩ := b
  rw [outcomes?] at h
  dsimp only at h ⊢
  induction packages generalizing outcomes with
  | nil =>
      cases h
      rfl
  | cons x packages ih =>
      obtain ⟨request, phase⟩ := x
      rw [List.mapM_cons] at h
      obtain ⟨first, hfirst, h⟩ := Option.bind_eq_some_iff.1 h
      obtain ⟨rest, hrest, h⟩ := Option.bind_eq_some_iff.1 h
      cases h
      obtain ⟨outcome, houtcome, rfl⟩ := Option.map_eq_some_iff.1 hfirst
      rw [ih hrest, List.map_cons]
      cases phase with
      | ended outcome' =>
          cases houtcome
          rfl
      | choosing | exploring | describing | entering | writing => cases houtcome

theorem Batch.outcomes?_ended (outcomes : List (PackageRequest × Except InstallError InstalledPackage)) (w : World) :
    (⟨outcomes.map fun x => (x.1, .ended x.2), w⟩ : Batch).outcomes? = some outcomes := by
  induction outcomes with
  | nil => rfl
  | cons x outcomes ih =>
      rw [outcomes?] at ih ⊢
      dsimp only at ih ⊢
      rw [List.map_cons, List.mapM_cons, ih]
      rfl

/-- Whatever turns have been taken, the packages of a batch that are left can be worked on one after the other. -/
theorem Batch.Sound.ends_after (hr : ∀ r ∈ i.registries, r.client.base.Regular)
    (finished : List (PackageRequest × Except InstallError InstalledPackage)) (others : List (PackageRequest × Phase))
    (h : Batch.Sound i n requests lasts ⟨(finished.map fun x => (x.1, .ended x.2)) ++ others, w⟩) :
    ∃ schedule outcomes, (Batch.turns i n ⟨(finished.map fun x => (x.1, .ended x.2)) ++ others, w⟩ schedule).outcomes? =
      some outcomes := by
  induction others generalizing finished w with
  | nil =>
      refine ⟨[], finished, ?_⟩
      rw [List.append_nil]
      exact outcomes?_ended finished w
  | cons x others ih =>
      obtain ⟨request, phase⟩ := x
      have hmem : request ∈ requests := by
        rw [← h.requests_eq]
        simp
      obtain ⟨outcome, w', hleads⟩ := (h.sound (request, phase) (by simp)).ends hr hmem h.proper
      obtain ⟨first, hfirst⟩ := turns_package hleads (finished.map fun x => (x.1, .ended x.2)) others
      have hsound := h.turns hr first
      have hended : (finished.map fun x => (x.1, Phase.ended x.2)) ++ (request, .ended outcome) :: others =
          ((finished ++ [(request, outcome)]).map fun x => (x.1, .ended x.2)) ++ others := by
        rw [List.map_append, List.append_assoc]
        rfl
      rw [hfirst, hended] at hsound
      obtain ⟨rest, outcomes, hrest⟩ := ih _ hsound
      refine ⟨first ++ rest, outcomes, ?_⟩
      rw [turns_append, hfirst, hended]
      exact hrest

theorem Batch.Sound.ends (hr : ∀ r ∈ i.registries, r.client.base.Regular) {b : Batch}
    (h : b.Sound i n requests lasts) : ∃ rest outcomes, (b.turns i n rest).outcomes? = some outcomes :=
  ends_after hr [] b.packages h

theorem Phase.Sound.comesTo {outcome : Except InstallError InstalledPackage}
    (h : (Phase.ended outcome).Sound i n requests lasts w request) (hfiles : ∀ e, outcome = .error e → ¬ e.OfFiles) :
    i.ComesTo n request outcome := by
  cases h with
  | missing found => exact .inl ⟨_, found, rfl⟩
  | failed files => exact absurd files (hfiles _ rfl)
  | ended arranges entered => exact .inr ⟨_, arranges, rfl⟩

/-- The root of a package that has been installed is in the import map. -/
theorem Phase.Sound.maps {q : InstalledPackage} (h : (Phase.ended (.ok q)).Sound i n requests lasts w request) :
    ∃ root, q.root? = some root ∧ (lasts → i.Agreed n requests root.importName root.storage.relativePath →
      i.Maps w root.importName root.storage.relativePath) := by
  generalize hphase : Phase.ended (.ok q) = phase at h
  cases h with
  | @ended p arranges entered =>
      obtain ⟨rfl, -⟩ := outcome_eq_ok (Phase.ended.inj hphase).symm
      obtain ⟨root, others, hroot⟩ := arranges.root
      refine ⟨root, ?_, fun hlasts hagreed => ?_⟩
      · rw [InstalledPackage.root?, installed, hroot, find?_root_distinctFiles]
        rfl
      · have hmem : ⟨root, none⟩ ∈ p.modules := hroot ▸ List.mem_cons_self
        have henters : MappedModule.enters ⟨root, none⟩ none root.importName := by
          simp [MappedModule.enters, MappedModule.isRoot]
        exact (entered _ hmem).maps hlasts _ _ hagreed henters
  | _ => cases hphase

/-- To install a single package is to install it together with no other one. -/
theorem installAll_single (i : Installer) (n : Network) (request : PackageRequest) (w : World) :
    i.installAll n [request] w = ([(request, (i.install n request w).1)], (i.install n request w).2) := by
  simp only [installAll, install, List.mapM_cons, List.mapM_nil, bind_assoc, pure_bind]
  rfl

theorem comesTo_install (hr : ∀ r ∈ i.registries, r.client.base.Regular) (ht : w.traffic.Faithful n)
    (hfiles : ∀ e, (i.install n request w).1 = .error e → ¬ e.OfFiles) :
    i.ComesTo n request (i.install n request w).1 := by
  obtain ⟨schedule, hturns⟩ := turns_installAll hr [request] w ht
  have hproper : i.Proper n False w := ⟨ht, False.elim⟩
  have hstart : (Batch.start i n [request] w).Sound i n [request] False := .start hproper
  have hsound := hstart.turns hr schedule
  rw [hturns, installAll_single] at hsound
  exact (hsound.sound _ (List.mem_singleton.2 rfl)).comesTo hfiles

end Installer

/-- The root of a package has no rival when it is installed together with one that is not there. -/
theorem agreed_app : mirrored.Agreed (pairNetwork "") [⟨"app", none, none⟩, ⟨"none", none, none⟩] appModule.importName
    appModule.storage.relativePath := by
  have hfound : (mirrored.found (pairNetwork "") ⟨"app", none, none⟩).toOption.map ResolvedPackage.modules =
      some pairModules := by
    decide +kernel
  have hmissing : (mirrored.found (pairNetwork "") ⟨"none", none, none⟩).toBool = false := by
    decide +kernel
  intro request hrequest p hp m hm henters
  rcases List.mem_pair.1 hrequest with rfl | rfl
  · rw [hp] at hfound
    rw [show p.modules = pairModules from Option.some.inj hfound] at hm
    rcases List.mem_pair.1 hm with rfl | rfl
    · rfl
    · exact absurd henters (by decide)
  · rw [hp] at hmissing
    cases hmissing

/-- A package of which one module is found before another one of the same path if nothing has to be waited for,
but after it if all that is requested takes a while. -/
def shuffledNetwork : Network :=
  ⟨[("http://cdn.test/app", some ⟨200, "", some "/app@2.0.0", none⟩),
    ("http://cdn.test/app@2.0.0", some ⟨200, "import '/a@1.0.0'\nimport '/b@1.0.0'", none, none⟩),
    ("http://cdn.test/a@1.0.0", some ⟨200, "import '/c@1.0.0'", none, none⟩),
    ("http://cdn.test/b@1.0.0", some ⟨200, "import '/d@1.0.0/y/d.js'", none, none⟩),
    ("http://cdn.test/c@1.0.0", some ⟨200, "import '/d@1.0.0/x/d.js'", none, none⟩),
    ("http://cdn.test/d@1.0.0/x/d.js", some ⟨200, "", none, none⟩),
    ("http://cdn.test/d@1.0.0/y/d.js", some ⟨200, "", none, none⟩)], true⟩

/-- Turns of two packages, one after the other.  What the first one requests takes a while. -/
def firstSlow : List Installer.Turn := (List.range 144).map fun k => ⟨k / 72, k % 6, 1 - k / 72⟩

end WebModules
