import WebModules.CommandLine.Run
import WebModules.Proofs.Install.Failed
import WebModules.Proofs.Install.Isolated
import WebModules.Proofs.Install.Spared
import WebModules.Proofs.Manifest

/-!
What a run that adds packages leaves in the manifest, however the packages are installed together.
-/

namespace WebModules

open FileTree Schedule WebModules.Path

namespace FileTree

variable {t t' : FileTree} {path : String}

/-- A tree in which a path leads to the same file, or to nothing as before, or at most to a directory. -/
structure Untouched (path : String) (t t' : FileTree) : Prop where
  file : ∀ text, t.read path = .ok text → t'.read path = .ok text
  vacant : t.Vacant path → t'.Vacant path ∨ t'.Blocked path

end FileTree

namespace Installer

variable {i : Installer} {n : Network} {requests : List PackageRequest} {t t' : FileTree}
  {results : List (PackageRequest × Except InstallError InstalledPackage)}

/-- Packages that are installed together in a project may come to some results and leave some files. -/
def Concludes (i : Installer) (n : Network) (requests : List PackageRequest) (t : FileTree)
    (results : List (PackageRequest × Except InstallError InstalledPackage)) (t' : FileTree) : Prop :=
  ∃ schedule, ((Batch.start i n requests ⟨t, .empty⟩).turns i n schedule).outcomes? = some results ∧
    ((Batch.start i n requests ⟨t, .empty⟩).turns i n schedule).world.files = t'

/-- The request of a package that has been installed has the version of its root. -/
theorem Phase.Sound.pinned {lasts : Prop} {w : World} {request : PackageRequest} {q : InstalledPackage}
    (h : (Phase.ended (.ok q)).Sound i n requests lasts w request) :
    ∃ root, q.root? = some root ∧ q.request = { request with version := some root.version } := by
  generalize hphase : Phase.ended (.ok q) = phase at h
  cases h with
  | @ended p arranges entered =>
      obtain ⟨rfl, -⟩ := outcome_eq_ok (Phase.ended.inj hphase).symm
      obtain ⟨root, others, hroot⟩ := arranges.root
      obtain ⟨ms, hfound, -⟩ := arranges
      have hfind := (i.gives_find n request .empty (Traffic.faithful_empty n)).1
      obtain ⟨hrequest, -⟩ := i.ensures_root n request .empty _ (hfind.trans hfound)
      refine ⟨root, ?_, ?_⟩
      · rw [InstalledPackage.root?, installed, hroot, find?_root_distinctFiles]
        rfl
      · rw [installed, hroot, find?_root_distinctFiles]
        dsimp only at hrequest ⊢
        rw [hrequest]
        rfl
  | _ => cases hphase

namespace Concludes

variable (hr : ∀ r ∈ i.registries, r.client.base.Regular)
include hr

theorem sound (h : i.Concludes n requests t results t') : results.map Prod.fst = requests ∧
    ∀ request p, (request, .ok p) ∈ results →
      ∃ root, p.root? = some root ∧ p.request = { request with version := some root.version } := by
  obtain ⟨schedule, houtcomes, -⟩ := h
  have hpackages := Batch.packages_of_outcomes? houtcomes
  have hproper : i.Proper n False ⟨t, .empty⟩ := ⟨Traffic.faithful_empty n, False.elim⟩
  have hstart : (Batch.start i n requests ⟨t, .empty⟩).Sound i n requests False := .start hproper
  have hsound := hstart.turns hr schedule
  refine ⟨?_, fun request p hmem => ?_⟩
  · rw [← hsound.requests_eq, hpackages, List.map_map]
    rfl
  · refine (hsound.sound (request, .ended (.ok p)) ?_).pinned
    rw [hpackages]
    exact List.mem_map.2 ⟨_, hmem, rfl⟩

omit hr in
theorem untouched (h : i.Concludes n requests t results t') {path name : String} (hf : Foreign name)
    (hp : (place path).getLast? = some name) : t.Untouched path t' := by
  obtain ⟨schedule, -, rfl⟩ := h
  have hspares : Spares name ⟨t, .empty⟩ ((Batch.start i n requests ⟨t, .empty⟩).turns i n schedule).world :=
    (rule_spares hf).turns requests ⟨t, .empty⟩ schedule
  have hkept {directory last} (hn : Names t path directory last) : (directory ++ [last]).getLast? = some name := by
    rw [hn.place_eq, hp]
  refine ⟨fun text hread => ?_, fun ⟨directory, last, hn, hnode⟩ => ?_⟩
  · obtain ⟨directory, last, hn, hnode⟩ := read_eq_ok_iff.1 hread
    have hfile := hspares.keeps.file _ text (fun hne => hne (hkept hn)) hnode
    exact read_eq_ok_iff.2 ⟨directory, last, hn.keep hspares.keeps, hfile⟩
  · rcases hspares.other _ (fun hne => hne (hkept hn)) with hsame | ⟨-, -, hdirectory⟩
    · exact .inl ⟨directory, last, hn.keep hspares.keeps, hsame.trans hnode⟩
    · exact .inr ⟨directory, last, hn.keep hspares.keeps, hdirectory⟩

theorem installAll (requests : List PackageRequest) (t : FileTree) :
    i.Concludes n requests t (i.installAll n requests ⟨t, .empty⟩).1 (i.installAll n requests ⟨t, .empty⟩).2.files := by
  obtain ⟨schedule, hturns⟩ := turns_installAll hr requests ⟨t, .empty⟩ (Traffic.faithful_empty n)
  refine ⟨schedule, ?_, by rw [hturns]⟩
  rw [hturns]
  exact Batch.outcomes?_ended _ _

end Concludes

end Installer

namespace Manifest

variable {path : String} {t t' : FileTree} {rs : List PackageRequest} {fields : List (String × Json)}

/-- The document with the versions of requests. -/
def updated (rs : List PackageRequest) (fields : List (String × Json)) : List (String × Json) :=
  Json.setField listName (.object (rs.foldl withRequest (listed (.object fields)))) fields

/-- What has been found in a manifest is found as long as it is not touched, unless there has been none and
a directory is made in its place. -/
theorem Prior.untouched (h : Prior path t fields) (hu : t.Untouched path t') :
    Prior path t' fields ∨ t.Vacant path ∧ t'.Blocked path := by
  rcases h with h | ⟨h, rfl⟩
  · obtain ⟨text, hread, hj⟩ := document_eq_ok_iff.1 h
    exact .inl (.inl (document_eq_ok_iff.2 ⟨text, hu.file text hread, hj⟩))
  · exact (hu.vacant h).imp (fun hv => .inr ⟨hv, rfl⟩) fun hb => ⟨h, hb⟩

theorem Prior.add (h : Prior path t fields) (rs : List PackageRequest) : add path rs t =
    (.ok (), t.put (place path) (.file ((Json.object (updated rs fields)).pretty ++ "\n"))) := by
  rw [Manifest.add, modify, h.currentFields]
  dsimp only
  rw [h.write]
  rfl

theorem add_blocked (h : t.Blocked path) (rs : List PackageRequest) :
    add path rs t = (.error (.file .isADirectory), t) := by
  rw [add, modify, currentFields, document, h.read]

theorem Prior.document_updated (h : Prior path t fields) (rs : List PackageRequest) :
    let written := Json.object (updated rs fields)
    let t' := t.put (place path) (.file (written.pretty ++ "\n"))
    t'.read path = .ok (written.pretty ++ "\n") ∧
      ((∀ n, Json.HasNumber n (.object fields) → Json.Steady n) → document path t' = .ok written) ∧
      ∀ j, document path t' = .ok j → j.outline = written.outline := by
  intro written t'
  have hregular := regular_currentFields h.currentFields
  have hread : t'.read path = .ok (written.pretty ++ "\n") := read_of_write (h.write _)
  refine ⟨hread, fun hsteady => ?_, fun j hj => ?_⟩
  · have hprinted := (regular_relisted (hregular.of_numbers hsteady) rs).read_pretty
    exact document_eq_ok_iff.2 ⟨_, hread, hprinted⟩
  · obtain ⟨text, hread', hj⟩ := document_eq_ok_iff.1 hj
    obtain rfl : written.pretty ++ "\n" = text := Except.ok.inj (hread.symm.trans hread')
    exact Json.outline_of_read_pretty (regular_relisted hregular rs) hj

end Manifest

namespace CommandLine

open Installer

variable {results : List (PackageRequest × Except InstallError InstalledPackage)}

/-- The requests of the packages that have been installed. -/
def succeeded (results : List (PackageRequest × Except InstallError InstalledPackage)) : List PackageRequest :=
  results.filterMap fun x => x.2.toOption.map InstalledPackage.request

/-- All packages have been installed. -/
def Complete (results : List (PackageRequest × Except InstallError InstalledPackage)) : Prop :=
  ∀ x ∈ results, ∃ p, x.2 = .ok p

/-- What is done when the packages to be added have been installed or not. -/
def concludeAdd (s : Setting) (wanted : Nat) (results : List (PackageRequest × Except InstallError InstalledPackage)) :
    StateM FileTree Output := do
  let (said, installed) := reportInstalled "add" results
  let noted ← if installed.isEmpty then pure (.ok ()) else Manifest.add s.manifestPath installed
  match noted with
  | .error e => return .failing "add" e.explain.message said
  | .ok () =>
    let lines := installed.map fun r => "Added " ++ r.text ++ " to package.json"
    return ⟨statusOf installed.length wanted, said.out ++ lines, said.err⟩

theorem runAdd_eq (s : Setting) (i : Installer) (requests : List PackageRequest) (t : FileTree) :
    runAdd s i requests t = concludeAdd s requests.length (i.installAll s.network requests ⟨t, .empty⟩).1
      (i.installAll s.network requests ⟨t, .empty⟩).2.files := rfl

theorem reportInstalled_snd (command : String) : (reportInstalled command results).2 = succeeded results := by
  induction results with
  | nil => rfl
  | cons x results ih =>
      obtain ⟨request, result⟩ := x
      rw [reportInstalled, succeeded, List.filterMap_cons]
      cases result with
      | error e => exact ih
      | ok p => exact congrArg (p.request :: ·) ih

theorem statusOf_eq_zero_iff : statusOf (succeeded results).length results.length = 0 ↔ Complete results := by
  have hle : (succeeded results).length ≤ results.length := List.length_filterMap_le _ _
  have hall : (succeeded results).length = results.length ↔ Complete results := by
    rw [succeeded, List.filterMap_length_eq_length]
    refine forall₂_congr fun x _ => ?_
    cases x.2 <;> simp [Except.toOption]
  rw [statusOf, ← hall]
  split <;> omega

/-! Documents -/

open Manifest in
/-- A manifest lists what has been installed, each key with the version of the last package for it, and is
otherwise as it was. -/
structure Lists (results : List (PackageRequest × Except InstallError InstalledPackage))
    (fields fields' : List (String × Json)) : Prop where
  names : fields'.map Prod.fst = if listName ∈ fields.map Prod.fst then fields.map Prod.fst
    else fields.map Prod.fst ++ [listName]
  field : ∀ name, name ≠ listName → Json.field? name fields' = Json.field? name fields
  entries : ∃ entries, Json.field? listName fields' = some (.object entries) ∧ (entries.map Prod.fst).Nodup ∧
    (listed (.object fields)).map Prod.fst <+: entries.map Prod.fst ∧
    (∀ name, (∀ request p, (request, .ok p) ∈ results → request.key ≠ name) →
      Json.field? name entries = Json.field? name (listed (.object fields))) ∧
    ∀ before request p after, results = before ++ (request, .ok p) :: after →
      (∀ later q, (later, .ok q) ∈ after → later.key ≠ request.key) →
        ∃ root, p.root? = some root ∧ Json.field? request.key entries = some (.string root.version)

theorem mem_succeeded {r : PackageRequest} (h : r ∈ succeeded results) :
    ∃ request p, (request, .ok p) ∈ results ∧ r = p.request := by
  obtain ⟨⟨request, result⟩, hmem, hr⟩ := List.mem_filterMap.1 h
  cases result with
  | error e => cases hr
  | ok p => exact ⟨request, p, hmem, (Option.some.inj hr).symm⟩

/-- The packages that have been installed have the versions of their roots. -/
def Pinned (results : List (PackageRequest × Except InstallError InstalledPackage)) : Prop :=
  ∀ request p, (request, .ok p) ∈ results →
    ∃ root, p.root? = some root ∧ p.request = { request with version := some root.version }

theorem Pinned.key_eq (h : Pinned results) {request : PackageRequest} {p : InstalledPackage}
    (hmem : (request, .ok p) ∈ results) : p.request.key = request.key := by
  obtain ⟨root, -, hrequest⟩ := h request p hmem
  rw [hrequest]
  rfl

theorem Pinned.last (h : Pinned results) {before after : List (PackageRequest × Except InstallError InstalledPackage)}
    {request : PackageRequest} {p : InstalledPackage} (hresults : results = before ++ (request, .ok p) :: after)
    (hafter : ∀ later q, (later, .ok q) ∈ after → later.key ≠ request.key) :
    Manifest.Last (succeeded results) p.request := by
  refine ⟨succeeded before, succeeded after, by rw [hresults, succeeded, List.filterMap_append]; rfl, fun r hr => ?_⟩
  obtain ⟨later, q, hmem, rfl⟩ := mem_succeeded hr
  have hlater : (later, .ok q) ∈ results := by
    rw [hresults]
    exact List.mem_append_right _ (List.mem_cons_of_mem _ hmem)
  rw [h.key_eq hlater, h.key_eq (hresults ▸ List.mem_append_right _ List.mem_cons_self)]
  exact hafter later q hmem

theorem lists_updated {path : String} {t : FileTree} {fields : List (String × Json)}
    (hprior : Manifest.Prior path t fields) (h : Pinned results) :
    Lists results fields (Manifest.updated (succeeded results) fields) := by
  have hnodup := (Manifest.regular_listed (Manifest.regular_currentFields hprior.currentFields)).1
  refine ⟨Json.names_setField _ _ _, fun name hname => ?_, (succeeded results).foldl Manifest.withRequest
    (Manifest.listed (.object fields)), ?_, Manifest.nodup_foldl hnodup _, Manifest.names_foldl _ _,
    fun name hname => Manifest.field?_foldl_of_notMem fun hmem => ?_, ?_⟩
  · rw [Manifest.updated, Json.field?_setField, if_neg hname.symm]
  · rw [Manifest.updated, Json.field?_setField, if_pos rfl]
  · obtain ⟨r, hr, hkey⟩ := List.mem_map.1 hmem
    obtain ⟨request, p, hresult, rfl⟩ := mem_succeeded hr
    exact hname request p hresult ((h.key_eq hresult).symm.trans hkey)
  · intro before request p after hresults hafter
    have hmem : (request, .ok p) ∈ results := hresults ▸ List.mem_append_right _ List.mem_cons_self
    obtain ⟨root, hroot, hrequest⟩ := h request p hmem
    have hrecorded : Manifest.recorded p.request = .string root.version := by rw [hrequest]; rfl
    refine ⟨root, hroot, ?_⟩
    rw [← hrecorded, ← h.key_eq hmem]
    exact Manifest.field?_foldl_of_last (h.last hresults hafter)

/-! Runs -/

theorem exists_of_mapM_parse {packages : List String} {requests : List PackageRequest}
    (h : packages.mapM PackageRequest.parse = .ok requests) {package : String} (hmem : package ∈ packages) :
    ∃ r, PackageRequest.parse package = .ok r := by
  induction packages generalizing requests with
  | nil => cases hmem
  | cons first packages ih =>
      rw [List.mapM_cons] at h
      obtain ⟨r, hfirst, h⟩ := bind_eq_ok h
      obtain ⟨rs, hrest, -⟩ := bind_eq_ok h
      rcases List.mem_cons.1 hmem with rfl | hmem
      · exact ⟨r, hfirst⟩
      · exact ih hrest hmem

theorem mem_registriesFrom {c : Config} {number : Nat} {backends : List Backend} {registries : List Registry}
    (h : c.registriesFrom number backends = .ok registries) :
    ∀ r ∈ registries, ∃ number base, Registry.ofBase number r.backend base = .ok r := by
  induction backends generalizing number registries with
  | nil =>
      cases h
      exact nofun
  | cons b backends ih =>
      rw [Config.registriesFrom] at h
      obtain ⟨first, hfirst, h⟩ := bind_eq_ok h
      obtain ⟨rest, hrest, h⟩ := bind_eq_ok h
      cases h
      obtain rfl : first.backend = b := by
        rw [Registry.ofBase] at hfirst
        split at hfirst
        · cases hfirst
          rfl
        · cases hfirst
      exact List.forall_mem_cons.2 ⟨⟨number, _, hfirst⟩, ih hrest⟩

theorem regular_of_installer {s : Setting} {i : Installer} (h : s.installer = .ok i) :
    ∀ r ∈ i.registries, r.client.base.Regular := by
  rw [Setting.installer] at h
  obtain ⟨only, -, h⟩ := bind_eq_ok h
  split at h
  · rename_i registries hregistries
    cases h
    intro r hr
    obtain ⟨number, base, hbase⟩ := mem_registriesFrom hregistries r hr
    exact Registry.regular_ofBase hbase
  · cases h

theorem place_manifestPath (s : Setting) : (place s.manifestPath).getLast? = some "package.json" := by
  have hsteps : steps s.manifestPath = steps s.layout.projectRoot ++ [.normal "package.json"] := steps_push rfl _
  rw [getLast?_place (by rw [hsteps, List.getLast?_concat])]

theorem foreign_manifest : Foreign "package.json" := by
  refine ⟨by decide, fun part h => ?_⟩
  have hlast := congrArg List.getLast? ((congrArg String.toList h).trans String.toList_ofList)
  rw [List.getLast?_append_of_ne_nil part (by decide : ".js".toList ≠ [])] at hlast
  exact absurd hlast (by decide)

theorem isEmpty_succeeded_iff : (succeeded results).isEmpty ↔ ¬ ∃ x ∈ results, ∃ p, x.2 = .ok p := by
  rw [List.isEmpty_iff, succeeded, List.filterMap_eq_nil_iff, not_exists]
  refine forall_congr' fun x => ?_
  cases x.2 <;> simp [Except.toOption]

/-- How a run ends that has added packages. -/
structure Concluded (path : String) (results : List (PackageRequest × Except InstallError InstalledPackage))
    (fields : List (String × Json)) (t t' : FileTree) (out : Output) : Prop where
  status : out.status = 0 ↔ Complete results
  none : (¬ ∃ x ∈ results, ∃ p, x.2 = .ok p) → t' = t
  some : (∃ x ∈ results, ∃ p, x.2 = .ok p) → ∃ fields', t' = t.put (place path) (.file ((Json.object fields').pretty ++ "\n")) ∧
    t'.read path = .ok ((Json.object fields').pretty ++ "\n") ∧ Lists results fields fields' ∧
    ((∀ n, Json.HasNumber n (.object fields) → Json.Steady n) → Manifest.document path t' = .ok (.object fields')) ∧
    ∀ j, Manifest.document path t' = .ok j → j.outline = (Json.object fields').outline

variable {s : Setting} {t : FileTree} {fields : List (String × Json)}

theorem concludeAdd_eq (s : Setting) (wanted : Nat) (t : FileTree) : concludeAdd s wanted results t =
    let said := (reportInstalled "add" results).1
    let noted := if (succeeded results).isEmpty then (.ok (), t) else Manifest.add s.manifestPath (succeeded results) t
    match noted.1 with
    | .error e => (.failing "add" e.explain.message said, noted.2)
    | .ok () => (⟨statusOf (succeeded results).length wanted, said.out ++ (succeeded results).map
        (fun r => "Added " ++ r.text ++ " to package.json"), said.err⟩, noted.2) := by
  rw [concludeAdd, ← reportInstalled_snd "add"]
  obtain ⟨said, installed⟩ := reportInstalled "add" results
  cases installed with
  | nil => rfl
  | cons r rs =>
      simp only [List.isEmpty_cons, Bool.false_eq_true, if_false, bind, StateT.bind]
      cases hadd : Manifest.add s.manifestPath (r :: rs) t with
      | mk noted t' => cases noted <;> rfl

theorem concluded_of_none (h : ¬ ∃ x ∈ results, ∃ p, x.2 = .ok p) :
    Concluded s.manifestPath results fields t (concludeAdd s results.length results t).2
      (concludeAdd s results.length results t).1 := by
  rw [concludeAdd_eq, if_pos (isEmpty_succeeded_iff.2 h)]
  exact ⟨statusOf_eq_zero_iff, fun _ => rfl, fun hsome => absurd hsome h⟩

theorem concluded_of_some (hpinned : Pinned results) (hprior : Manifest.Prior s.manifestPath t fields)
    (h : ∃ x ∈ results, ∃ p, x.2 = .ok p) :
    Concluded s.manifestPath results fields t (concludeAdd s results.length results t).2
      (concludeAdd s results.length results t).1 := by
  rw [concludeAdd_eq, if_neg (isEmpty_succeeded_iff.not.2 (not_not.2 h)), hprior.add]
  obtain ⟨hread, hsteady, hlegible⟩ := hprior.document_updated (succeeded results)
  exact ⟨statusOf_eq_zero_iff, fun hnone => absurd h hnone,
    fun _ => ⟨_, rfl, hread, lists_updated hprior hpinned, hsteady, hlegible⟩⟩

theorem concludeAdd_blocked (hb : t.Blocked s.manifestPath) (h : ∃ x ∈ results, ∃ p, x.2 = .ok p) (wanted : Nat) :
    (concludeAdd s wanted results t).1.status = 1 ∧ (concludeAdd s wanted results t).2 = t := by
  rw [concludeAdd_eq, if_neg (isEmpty_succeeded_iff.not.2 (not_not.2 h)), Manifest.add_blocked hb]
  exact ⟨rfl, rfl⟩

/-- A run that cannot start to install anything changes nothing. -/
theorem runWith_refused {command : String} {packages : List String}
    {work : Installer → List PackageRequest → StateM FileTree Output}
    (h : (∃ package ∈ packages, ∃ e, PackageRequest.parse package = .error e) ∨ ∃ e, s.installer = .error e) :
    ∃ out, runWith s command packages work t = (out, t) ∧ out.status = 1 := by
  rw [runWith]
  cases hparsed : packages.mapM PackageRequest.parse with
  | error e => exact ⟨_, rfl, rfl⟩
  | ok requests =>
      rcases h with ⟨package, hmem, e, he⟩ | ⟨e, he⟩
      · obtain ⟨r, hr⟩ := exists_of_mapM_parse hparsed hmem
        rw [hr] at he
        cases he
      · rw [he]
        exact ⟨_, rfl, rfl⟩

theorem run_add {network : Network} {config : Config} {projectRoot : String} {args : List String} {options : Options}
    {packages : List String} {requests : List PackageRequest} {i : Installer}
    (hargs : parse args = .run options (.add packages)) (hparsed : packages.mapM PackageRequest.parse = .ok requests)
    (hi : Setting.installer ⟨network, config, projectRoot, options⟩ = .ok i) (t : FileTree) :
    run network config projectRoot args t =
      concludeAdd ⟨network, config, projectRoot, options⟩ requests.length
        (i.installAll network requests ⟨t, .empty⟩).1 (i.installAll network requests ⟨t, .empty⟩).2.files := by
  rw [run, hargs]
  dsimp only
  rw [runCommand, runWith, hparsed]
  dsimp only
  rw [hi, ← runAdd_eq]

/-- A user who tries a single registry. -/
def soleConfig : Config := ⟨some ["unpkg"], [("unpkg", "http://cdn.test/")], none, none⟩

/-- A project with a text in its manifest. -/
def manifested (text : String) : FileTree :=
  ⟨[(["project"], .directory), (["project", "package.json"], .file text)]⟩

def siteFields : List (String × Json) := [("name", .string "site"), ("private", .bool true)]

theorem installer_sole : Setting.installer ⟨soleNetwork, soleConfig, "/project", .none⟩ = .ok mirrored := by
  decide +kernel

theorem run_sole (t : FileTree) : run soleNetwork soleConfig "/project" ["add", "app"] t =
    concludeAdd ⟨soleNetwork, soleConfig, "/project", .none⟩ 1
      (mirrored.installAll soleNetwork [⟨"app", none, none⟩] ⟨t, .empty⟩).1
      (mirrored.installAll soleNetwork [⟨"app", none, none⟩] ⟨t, .empty⟩).2.files :=
  run_add (show parse ["add", "app"] = .run .none (.add ["app"]) by decide +kernel) (by decide +kernel)
    installer_sole t

end CommandLine

end WebModules
