import WebModules.Install.Removal
import WebModules.Proofs.ImportMap.Removal
import WebModules.Proofs.Package.Layout
import WebModules.Proofs.Store.Prune

/-!
What the removal of a package does to the project: the entries and files that are needed by others are
left as they are, and what is told about the others is what has been removed.
-/

namespace WebModules.Installer

open FileTree WebModules.Path

variable {i : Installer} {request : PackageRequest} {t t' : FileTree} {m : ImportMap} {document : Json}
  {text version : String}

theorem removeFiles_eq_ok {files removed : List String} (h : i.removeFiles files t = (.ok removed, t')) :
    Loses t t' (files.map fun file => place (i.layout.pathFor file)) (removed.map place) ∧
      ∀ file ∈ files, t'.find (i.layout.pathFor file) = .error .notFound := by
  induction files generalizing t removed with
  | nil =>
      cases h
      exact ⟨.refl _, by simp⟩
  | cons file files ih =>
      cases hfirst : i.store.removeFile (i.layout.pathFor file) t with
      | mk result next =>
          simp only [removeFiles, bind, StateT.bind, hfirst] at h
          cases result with
          | error e => cases h
          | ok first =>
              cases hrest : i.removeFiles files next with
              | mk result last =>
                  simp only [StateT.bind, hrest] at h
                  cases result with
                  | error e => cases h
                  | ok more =>
                      cases h
                      obtain ⟨hloses, hgone⟩ := i.store.removeFile_eq_ok hfirst
                      obtain ⟨hlater, hothers⟩ := ih hrest
                      rw [List.map_append]
                      exact ⟨hloses.trans hlater,
                        List.forall_mem_cons.2 ⟨hlater.find_notFound hgone, hothers⟩⟩

/-- The steps of a removal from a project with a readable map: the map is written, and then the files
that are not needed any more are removed. -/
theorem remove_eq_ok {removed : RemovedPackage} (hr : t.read i.importMapPath = .ok text)
    (hj : Json.read text = .ok document) (hm : ImportMap.ofJson? document = some m)
    (hv : i.versionToRemove request t = .ok version) (h : i.remove request t = (.ok removed, t')) :
    ∃ left, ImportMap.Removes m left (importName request.name request.target)
        (i.layout.storage request.name request.target version).relativeDir removed.removal ∧
      removed.request = { request with version := some version } ∧
      i.removeFiles (unneeded removed.removal (i.layout.storage request.name request.target version))
        (t.put (place i.importMapPath) (.file ((left.replaceIn document).pretty ++ "\n"))) =
          (.ok removed.paths, t') := by
  have hmap : ImportMap.ofDocument document = m := by
    rw [ImportMap.ofDocument, hm]
    rfl
  have hwritten := ImportMap.removeDependency_eq hr (importName request.name request.target)
    (i.layout.storage request.name request.target version).relativeDir
  rw [ImportMap.documentIn_of_readable hr hj, ImportMap.removeIn, hmap] at hwritten
  have hremoves := ImportMap.removes_remove m (importName request.name request.target)
    (i.layout.storage request.name request.target version).relativeDir
  generalize m.remove (importName request.name request.target)
    (i.layout.storage request.name request.target version).relativeDir = result at hwritten hremoves
  obtain ⟨left, removal⟩ := result
  rw [remove] at h
  simp only [bind, StateT.bind, get, getThe, MonadStateOf.get, StateT.get, pure, hv, hwritten] at h
  cases hfiles : i.removeFiles (unneeded removal (i.layout.storage request.name request.target version))
      (t.put (place i.importMapPath) (.file ((left.replaceIn document).pretty ++ "\n"))) with
  | mk result last =>
      simp only [hfiles] at h
      cases result with
      | error e => cases h
      | ok paths =>
          cases h
          exact ⟨left, hremoves, rfl, hfiles⟩

theorem mem_unneeded_iff {left : ImportMap} {name owner path : String} {removal : ImportMap.Removal}
    (h : ImportMap.Removes m left name owner removal) (storage : Storage) :
    path ∈ unneeded removal storage ↔ (m.Maps path ∨ path = storage.relativePath) ∧ ¬ left.Maps path := by
  rw [unneeded, mem_sortedSet, List.mem_append, h.orphaned, or_and_right]
  refine or_congr_right ?_
  split
  · rename_i hretained
    rw [List.contains_iff_mem, h.retained] at hretained
    simp only [List.not_mem_nil, false_iff, not_and, not_not]
    rintro rfl
    exact hretained
  · rename_i hretained
    rw [List.contains_iff_mem, h.retained] at hretained
    rw [List.mem_singleton, iff_self_and]
    rintro rfl
    exact hretained

-- A file that a name still stands for stays, also if it is that of the package itself.
example : unneeded ⟨some "/web_modules/b/1/b.js", [], ["/web_modules/a/1/a.js"], ["/web_modules/b/1/b.js"], true⟩
    (Layout.storage (.of "/project" "web_modules") "b" none "1") = ["/web_modules/a/1/a.js"] := by
  decide +kernel

/-- Different paths of a map, the own path of a package among them, stand for different files. -/
def Distinct (i : Installer) (m : ImportMap) (own : String) : Prop :=
  ∀ p q, m.Maps p ∨ p = own → m.Maps q ∨ q = own →
    place (i.layout.pathFor p) = place (i.layout.pathFor q) → p = q

theorem distinct_iff {own : String} : i.Distinct m own ↔ ∀ p ∈ own :: m.paths, ∀ q ∈ own :: m.paths,
    place (i.layout.pathFor p) = place (i.layout.pathFor q) → p = q := by
  have hmem (p : String) : p ∈ own :: m.paths ↔ m.Maps p ∨ p = own := by
    rw [List.mem_cons, ImportMap.mem_paths_iff, or_comm]
  simp only [hmem]
  exact ⟨fun h p hp q hq => h p q hp hq, fun h p q hp hq => h p hp q hq⟩

/-- A removal takes away what no name stands for any more, and nothing that a name still stands for, if
no name stands for the file of the map itself. -/
theorem remove_spares {removed : RemovedPackage} (hr : t.read i.importMapPath = .ok text)
    (hj : Json.read text = .ok document) (hm : ImportMap.ofJson? document = some m)
    (hv : i.versionToRemove request t = .ok version) (h : i.remove request t = (.ok removed, t'))
    (hd : i.Distinct m (i.layout.storage request.name request.target version).relativePath)
    (hmap : ∀ p, m.Maps p → place (i.layout.pathFor p) ≠ place i.importMapPath) :
    ∃ left document', ImportMap.Removes m left (importName request.name request.target)
        (i.layout.storage request.name request.target version).relativeDir removed.removal ∧
      ImportMap.ofJson? document' = some left ∧ t'.HasFile i.importMapPath (document'.pretty ++ "\n") ∧
      (∀ p text, left.Maps p → t.HasFile (i.layout.pathFor p) text → t'.HasFile (i.layout.pathFor p) text) ∧
      (∀ p, m.Maps p → ¬ left.Maps p → t'.find (i.layout.pathFor p) = .error .notFound) ∧
      (∀ names, names ∈ removed.paths.map place ↔ t.node? names ≠ none ∧ t'.node? names = none) ∧
      ∀ names, names ≠ place i.importMapPath → t'.node? names = t.node? names ∨ t'.node? names = none := by
  obtain ⟨left, hremoves, -, hfiles⟩ := remove_eq_ok hr hj hm hv h
  obtain ⟨hloses, hgone⟩ := removeFiles_eq_ok hfiles
  have hwritten := write_existing hr ((left.replaceIn document).pretty ++ "\n")
  have hold := (hasFile_of_read hr).2
  have hne : place i.importMapPath ≠ [] := by
    intro hnil
    rw [hnil] at hold
    cases hold
  have hkeeps : t.Keeps (· = place i.importMapPath)
      (t.put (place i.importMapPath) (.file ((left.replaceIn document).pretty ++ "\n"))) :=
    keeps_put hne (by rw [hold]; simp)
  refine ⟨left, left.replaceIn document, hremoves, ImportMap.ofJson?_replaceIn hm left, ?_, ?_, ?_, ?_, ?_⟩
  · apply hloses.hasFile (hasFile_of_read (read_of_write hwritten))
    intro hmem
    obtain ⟨p, hp, hplace⟩ := List.mem_map.1 hmem
    rcases ((mem_unneeded_iff hremoves _).1 hp).1 with hmaps | rfl
    · exact hmap p hmaps hplace
    · exact i.layout.place_ne _ _ _ hplace
  · intro p text hp hfile
    have hmaps := hremoves.maps hp
    apply hloses.hasFile (hfile.keep hkeeps (hmap p hmaps))
    intro hmem
    obtain ⟨q, hq, hplace⟩ := List.mem_map.1 hmem
    obtain ⟨hmapped, hnot⟩ := (mem_unneeded_iff hremoves _).1 hq
    exact hnot (hd p q (.inl hmaps) hmapped hplace.symm ▸ hp)
  · intro p hmaps hnot
    exact hgone p ((mem_unneeded_iff hremoves _).2 ⟨.inl hmaps, hnot⟩)
  · intro names
    rw [hloses.mem_iff, node?_put hne]
    by_cases hn : names = place i.importMapPath
    · rw [if_pos hn, hn, hold]
      simp
    · rw [if_neg hn]
  · intro names hn
    have hnode := hloses.node names
    rwa [node?_put hne, if_neg hn] at hnode

/-- A project with two packages, of which one imports the other one. -/
def sharedProject : FileTree :=
  ⟨[(["project"], .directory), (["project", "web_modules"], .directory),
    (["project", "web_modules", "import-map.json"], .file
      ("\x7b\"imports\":\x7b\"a\":\"/web_modules/a/1/a.js\",\"b\":\"/web_modules/b/1/b.js\"\x7d,\"scopes\":\x7b" ++
        "\"/web_modules/a/1/\":\x7b\"b\":\"/web_modules/b/1/b.js\"\x7d\x7d\x7d")),
    (["project", "web_modules", "a"], .directory), (["project", "web_modules", "a", "1"], .directory),
    (["project", "web_modules", "a", "1", "a.js"], .file "import 'b'"),
    (["project", "web_modules", "b"], .directory), (["project", "web_modules", "b", "1"], .directory),
    (["project", "web_modules", "b", "1", "b.js"], .file "")]⟩

def projectInstaller : Installer := ⟨[], .of "/project" "web_modules"⟩

theorem remove_spares_shared : ∃ removed t', projectInstaller.remove ⟨"a", none, some "1"⟩ sharedProject =
      (.ok removed, t') ∧ t'.HasFile "/project/web_modules/b/1/b.js" "" ∧
    t'.find "/project/web_modules/a/1/a.js" = .error .notFound ∧
    t'.node? ["project", "web_modules", "a"] = none := by
  obtain ⟨text, document, m, hr, hj, hm, hpaths⟩ := ImportMap.exists_of_paths sharedProject
    projectInstaller.importMapPath (show _ = some ["/web_modules/a/1/a.js", "/web_modules/b/1/b.js"] by decide +kernel)
  have htold : ((projectInstaller.remove ⟨"a", none, some "1"⟩ sharedProject).1.toOption.map
      fun removed => (removed.removal.orphaned, removed.removal.retained, removed.paths)) =
        some (["/web_modules/a/1/a.js"], ["/web_modules/b/1/b.js"],
          ["/project/web_modules/a/1/a.js", "/project/web_modules/a/1", "/project/web_modules/a"]) := by
    decide +kernel
  have hd : projectInstaller.Distinct m (projectInstaller.layout.storage "a" none "1").relativePath := by
    rw [distinct_iff, hpaths]
    decide +kernel
  have hmap : ∀ p, m.Maps p → place (projectInstaller.layout.pathFor p) ≠ place projectInstaller.importMapPath := by
    intro p hp
    rw [← ImportMap.mem_paths_iff, hpaths] at hp
    revert p
    decide +kernel
  obtain ⟨removed, t', h, htold⟩ := exists_ok_of_map htold
  simp only [Prod.mk.injEq] at htold
  obtain ⟨horphaned, hretained, hremoved⟩ := htold
  obtain ⟨left, document', hremoves, -, -, hkept, hgone, hexactly, -⟩ :=
    remove_spares hr hj hm rfl h hd hmap
  have hb : projectInstaller.layout.pathFor "/web_modules/b/1/b.js" = "/project/web_modules/b/1/b.js" := by
    decide +kernel
  have ha : projectInstaller.layout.pathFor "/web_modules/a/1/a.js" = "/project/web_modules/a/1/a.js" := by
    decide +kernel
  have hleft : left.Maps "/web_modules/b/1/b.js" := by
    rw [← hremoves.retained, hretained]
    decide
  obtain ⟨hmaps, hnot⟩ : m.Maps "/web_modules/a/1/a.js" ∧ ¬ left.Maps "/web_modules/a/1/a.js" := by
    rw [← hremoves.orphaned, horphaned]
    decide
  have hdirectory := (hexactly ["project", "web_modules", "a"]).1 (by rw [hremoved]; decide +kernel)
  rw [← hb, ← ha]
  refine ⟨removed, t', h, hkept _ "" hleft ?_, hgone _ hmaps hnot, hdirectory.2⟩
  exact hasFile_of_read (by decide +kernel)

/-- A map in which a name stands for the file of the map itself, which is therefore removed. -/
def ownMapProject : FileTree :=
  ⟨[(["project"], .directory), (["project", "web_modules"], .directory),
    (["project", "web_modules", "import-map.json"], .file
      "\x7b\"imports\":\x7b\"a\":\"/web_modules/import-map.json\",\"b\":\"/web_modules/b/1/b.js\"\x7d\x7d")]⟩

theorem remove_own_map : ∃ text document m, ownMapProject.read projectInstaller.importMapPath = .ok text ∧
    Json.read text = .ok document ∧ ImportMap.ofJson? document = some m ∧
    projectInstaller.Distinct m (projectInstaller.layout.storage "a" none "1").relativePath ∧
    (ImportMap.read projectInstaller.importMapPath ownMapProject).imports.get? "b" = some "/web_modules/b/1/b.js" ∧
    let outcome := projectInstaller.remove ⟨"a", none, some "1"⟩ ownMapProject
    outcome.1.toOption.isSome = true ∧
      (ImportMap.read projectInstaller.importMapPath outcome.2).imports.get? "b" = none ∧
      outcome.2.node? ["project", "web_modules", "import-map.json"] = none := by
  obtain ⟨text, document, m, hr, hj, hm, hpaths⟩ := ImportMap.exists_of_paths ownMapProject
    projectInstaller.importMapPath
    (show _ = some ["/web_modules/b/1/b.js", "/web_modules/import-map.json"] by decide +kernel)
  refine ⟨text, document, m, hr, hj, hm, ?_, ?_, ?_⟩
  · rw [distinct_iff, hpaths]
    decide +kernel
  · decide +kernel
  · decide +kernel

end WebModules.Installer
