import WebModules.Proofs.Install.Failed

/-!
What an installation reports that succeeds, and what it leaves in the project: one file for each path of
the modules that have been found, and an import map in which all of them have been entered.
-/

namespace WebModules

open FileTree Schedule

namespace ImportMap

/-- What is read of a document that has been printed. -/
def reread (document : Json) : Json := (Json.read (document.pretty ++ "\n")).toOption.getD (.object [])

/-- The document that is printed last if modules are entered one after the other, each in what is read of
the document that was printed before. -/
def lastPrinted (document : Json) (m : MappedModule) : List MappedModule → Json
  | [] => entered document m
  | next :: ms => lastPrinted (reread (entered document m)) next ms

/-- The document with the maps of modules merged into it, or into an empty object if it is none. -/
def mergedAll (document : Json) (ms : List MappedModule) : Json :=
  ms.foldl (fun d m => d.merge (fragment m).toJson) (if document.isObject then document else .object [])

variable {document : Json}

/-- If numbers are read as they are printed, then so are the documents on the way. -/
theorem lastPrinted_of_steady (hs : Json.Regular Json.Steady Json.maxDepth document) (m : MappedModule)
    (ms : List MappedModule) : lastPrinted document m ms = (m :: ms).foldl entered document := by
  induction ms generalizing document m with
  | nil => rfl
  | cons next ms ih =>
      have hentered : Json.Regular Json.Steady Json.maxDepth (entered document m) := regular_persistIn hs (fragment m)
      have hreread : reread (entered document m) = entered document m := by
        rw [reread, hentered.read_pretty]
        rfl
      rw [lastPrinted, hreread, ih hentered]
      rfl

/-- Entering modules is merging their maps into the document. -/
theorem foldl_entered (document : Json) (m : MappedModule) (ms : List MappedModule) :
    (m :: ms).foldl entered document = mergedAll document (m :: ms) := by
  induction ms generalizing document m with
  | nil => rfl
  | cons next ms ih =>
      have hobject : (entered document m).isObject := isObject_persistIn (fragment m) document
      rw [List.foldl_cons, ih, mergedAll, if_pos hobject]
      rfl

end ImportMap

namespace Installer

variable {i : Installer} {n : Network} {r : Registry}

/-- The root comes first among the modules that are found, and they are found for the request. -/
theorem ensures_root (i : Installer) (n : Network) (request : PackageRequest) : Ensures (i.find n request) fun result =>
    ∀ p, result = .ok p → p.request = request ∧ ∃ root others, p.modules = ⟨root, none⟩ :: others := by
  rw [find]
  refine Ensures.bind (P := fun _ => True) (fun _ => trivial) fun found _ => ?_
  cases found with
  | none => exact .pure (by simp)
  | some r =>
      refine Ensures.bind (P := fun _ => True) (fun _ => trivial) fun version _ => ?_
      cases version with
      | error e => exact .pure (by simp)
      | ok version =>
          refine Ensures.bind (P := fun _ => True) (fun _ => trivial) fun graph _ => ?_
          cases graph with
          | error e => exact .pure (by simp)
          | ok graph =>
              have hhead (root : PackageModule) : Ensures (i.modulesOf n r root graph) fun ms =>
                  ∃ others, ms = ⟨root, none⟩ :: others := fun t => ⟨_, rfl⟩
              refine (hhead _).bind fun ms hms => .pure fun p hp => ?_
              cases hp
              exact ⟨rfl, _, hms⟩

/-- No two modules that files are written for have the same path. -/
theorem pairwise_distinctFiles (ms : List MappedModule) : (distinctFiles ms).Pairwise fun k m =>
    Path.same k.module.storage.path m.module.storage.path = false := by
  have hfold (ms kept : List MappedModule) (hkept : kept.Pairwise fun k m =>
      Path.same k.module.storage.path m.module.storage.path = false) : (ms.foldl (fun kept m =>
        if kept.any fun k => Path.same k.module.storage.path m.module.storage.path then kept
        else kept ++ [m]) kept).Pairwise fun k m =>
          Path.same k.module.storage.path m.module.storage.path = false := by
    induction ms generalizing kept with
    | nil => exact hkept
    | cons m ms ih =>
        apply ih
        dsimp only
        split
        · exact hkept
        · rename_i hnone
          refine List.pairwise_append.2 ⟨hkept, List.pairwise_singleton _ m, fun k hk last hlast => ?_⟩
          obtain rfl := List.mem_singleton.1 hlast
          exact Bool.eq_false_iff.2 fun hsame => hnone (List.any_eq_true.2 ⟨k, hk, hsame⟩)
  exact hfold ms [] .nil

/-! The stages of an installation that succeeds -/

theorem writes_of_runs {ms ms' : List MappedModule} {w w' : World}
    (h : Pipeline.Runs (download n r) ms ms' w w') :
    ms' = ms ∧ ∃ files : List (MappedModule × String), files.map Prod.fst = ms ∧ Writes files w.files w'.files := by
  induction h with
  | nil w => exact ⟨rfl, [], rfl, .nil _⟩
  | @cons m ms m' ms' w w' w'' first rest ih =>
      obtain ⟨rfl, files, rfl, hfiles⟩ := ih
      rw [download_eq] at first
      split at first
      · cases first
      · rename_i text traffic _
        split at first
        · cases first
        · rename_i after hwrite
          cases first
          exact ⟨rfl, (m, text) :: files, rfl, .cons hwrite hfiles⟩

theorem read_persist_runs {m : MappedModule} {ms ms' : List MappedModule} {w w' : World}
    (h : Pipeline.Runs i.persist (m :: ms) ms' w w') : w'.files.read i.importMapPath =
      .ok ((ImportMap.lastPrinted (ImportMap.documentIn i.importMapPath w.files) m ms).pretty ++ "\n") := by
  induction ms generalizing m ms' w with
  | nil =>
      cases h with
      | cons first rest =>
          cases rest
          obtain ⟨-, -, hpersist⟩ := persist_eq_ok first
          exact ImportMap.persist_eq_ok hpersist
  | cons next ms ih =>
      cases h with
      | cons first rest =>
          obtain ⟨-, -, hpersist⟩ := persist_eq_ok first
          rw [ih rest, ImportMap.lastPrinted, ImportMap.documentIn, ImportMap.persist_eq_ok hpersist]
          rfl

theorem install_runs {request : PackageRequest} {p : InstalledPackage} {w w' : World}
    (h : i.install n request w = (.ok p, w')) : ∃ found next,
      (i.find n request w.traffic).1 = .ok found ∧
        Pipeline.Runs i.persist found.modules found.modules ⟨w.files, (i.find n request w.traffic).2⟩ next ∧
        downloadAll n found next = (.ok p, w') := by
  rcases install_cases h with ⟨e, -, happ, -⟩ | ⟨found, hfound, ⟨e, -, happ⟩ | ⟨persisted, next, hpersist, hdownload⟩⟩
  · cases happ
  · cases happ
  · obtain ⟨rfl, -, hruns⟩ := persistAll_eq_ok hpersist
    exact ⟨persisted, next, hfound, hruns, hdownload⟩

/-- What is reported of the modules that have been found with a root, and which files there are then. -/
structure Reports (ms : List MappedModule) (root : PackageModule) (request : PackageRequest) (p : InstalledPackage)
    (t t' : FileTree) : Prop where
  head : ∃ others, p.modules = ⟨root, none⟩ :: others
  pinned : p.request = { request with version := some root.version }
  mem : ∀ m ∈ p.modules, m ∈ ms
  covers : ∀ m ∈ ms, ∃ k ∈ p.modules, Path.same k.module.storage.path m.module.storage.path = true
  distinct : p.modules.Pairwise fun k m => Path.same k.module.storage.path m.module.storage.path = false
  /-- The file of each module is written once, and nothing else. -/
  written : ∃ files : List (MappedModule × String), files.map Prod.fst = p.modules ∧ Writes files t t'
  readable : ∀ m ∈ ms, t'.Readable m.module.storage.path

theorem readable_of_runs {ms ms' : List MappedModule} {w w' : World}
    (h : Pipeline.Runs (download n r) (distinctFiles ms) ms' w w') {m : MappedModule} (hm : m ∈ ms)
    (hknown : i.layout.Knows m.module) : w'.files.Readable m.module.storage.path := by
  refine (readable_or_failed h.settles hm hknown).resolve_right ?_
  rintro ⟨k, failure, hzip, -⟩
  obtain ⟨value, -, hvalue⟩ := List.mem_map.1 (List.of_mem_zip hzip).2
  cases hvalue

theorem reports_of_downloadAll {found : ResolvedPackage} {root : PackageModule} {others : List MappedModule}
    {q : InstalledPackage} {w w' : World} (hroot : found.modules = ⟨root, none⟩ :: others)
    (hknown : ∀ m ∈ found.modules, i.layout.Knows m.module) (h : downloadAll n found w = (.ok q, w')) :
    Reports found.modules root found.request q w.files w'.files := by
  obtain ⟨hrequest, -, hruns⟩ := downloadAll_runs h
  obtain ⟨hmodules, hwritten⟩ := writes_of_runs hruns
  obtain ⟨rest, hrest⟩ : ∃ rest, q.modules = ⟨root, none⟩ :: rest := by
    rw [hmodules, hroot]
    exact distinctFiles_cons _ _
  refine ⟨⟨rest, hrest⟩, ?_, ?_, ?_, ?_, hmodules ▸ hwritten, fun m hm => readable_of_runs hruns hm (hknown m hm)⟩
  · rw [hrequest, hrest]
    rfl
  · rw [hmodules]
    exact fun m => mem_of_mem_distinctFiles
  · rw [hmodules]
    exact fun m hm => exists_mem_distinctFiles hm
  · rw [hmodules]
    exact pairwise_distinctFiles _

end Installer

/-- A project with a text in the file of its import map. -/
def started (text : String) : FileTree :=
  ⟨[(["project"], .directory), (["project", "web_modules"], .directory),
    (["project", "web_modules", "import-map.json"], .file text)]⟩

/-- The modules of a package of which one imports the other. -/
def pairModules : List MappedModule := [⟨appModule, none⟩, ⟨depModule, some appModule⟩]

/-- A document without a map. -/
def noteDocument : Json := .object [("note", .number (.integer 7))]

end WebModules
