import WebModules.Proofs.FileTree.Walk
import WebModules.Proofs.ImportMap.Document
import WebModules.Proofs.ImportMap.Needed

/-!
What the removal of a name does to an import map, to the document that holds it, and what a second
removal of the name does after that: nothing.
-/

namespace WebModules.ImportMap

variable {m left : ImportMap} {name owner path : String} {removal : Removal}

/-- Some name stands for a path, in all modules or in those of a directory. -/
inductive Maps (m : ImportMap) (path : String) : Prop
  | imported {name : String} (entry : m.imports.get? name = some path)
  | inScope {directory name : String} {scope : Imports} (found : m.scopes.get? directory = some scope)
      (entry : scope.get? name = some path)

theorem mem_targets_iff : path ∈ m.targets ↔ m.Maps path := by
  rw [targets, List.mem_append, List.mem_flatMap]
  constructor
  · rintro (h | ⟨scope, hscope, h⟩)
    · obtain ⟨name, hname⟩ := Dictionary.mem_values_iff.1 h
      exact .imported hname
    · obtain ⟨directory, hdirectory⟩ := Dictionary.mem_values_iff.1 hscope
      obtain ⟨name, hname⟩ := Dictionary.mem_values_iff.1 h
      exact .inScope hdirectory hname
  · rintro (hname | ⟨hdirectory, hname⟩)
    · exact .inl (Dictionary.mem_values_iff.2 ⟨_, hname⟩)
    · exact .inr ⟨_, Dictionary.mem_values_iff.2 ⟨_, hdirectory⟩, Dictionary.mem_values_iff.2 ⟨_, hname⟩⟩

theorem mem_paths_iff : path ∈ m.paths ↔ m.Maps path := by
  rw [paths, mem_sortedSet, mem_targets_iff]

/-- The map without a name, before any scope is dropped. -/
def without (m : ImportMap) (name : String) : ImportMap := ⟨m.imports.erase name, m.scopes⟩

/-- What a map has come to when a name has been removed, and what is told about it. -/
structure Removes (m left : ImportMap) (name owner : String) (removal : Removal) : Prop where
  imports : ∀ other, left.imports.get? other = if other = name then none else m.imports.get? other
  kept : ∀ directory, (m.without name).Needs directory →
    left.scopes.get? directory = m.scopes.get? directory
  dropped : ∀ directory, ¬ (m.without name).Needs directory → left.scopes.get? directory = none
  imported : removal.imported = m.imports.get? name
  scopes : ∀ directory, directory ∈ removal.scopes ↔
    (∃ scope, m.scopes.get? directory = some scope) ∧ ¬ (m.without name).Needs directory
  orphaned : ∀ path, path ∈ removal.orphaned ↔ m.Maps path ∧ ¬ left.Maps path
  retained : ∀ path, path ∈ removal.retained ↔ left.Maps path
  ownerRetained : removal.ownerRetained = true ↔ (m.without name).Needs owner

theorem removes_remove (m : ImportMap) (name owner : String) :
    Removes m (m.remove name owner).1 name owner (m.remove name owner).2 := by
  have hneeded (directory : String) : (m.without name).reachable.contains directory = true ↔
      (m.without name).Needs directory := by
    rw [List.contains_iff_mem, mem_reachable_iff]
  constructor
  · intro other
    exact Dictionary.get?_erase m.imports other name
  · intro directory h
    exact (Dictionary.get?_filter _ m.scopes directory).trans (if_pos ((hneeded directory).2 h))
  · intro directory h
    exact (Dictionary.get?_filter _ m.scopes directory).trans (if_neg ((hneeded directory).not.2 h))
  · rfl
  · intro directory
    rw [remove, List.mem_filter, Dictionary.mem_keys_iff, Bool.not_eq_true', Bool.eq_false_iff]
    exact and_congr_right' (hneeded directory).not
  · intro path
    rw [remove, List.mem_filter, mem_paths_iff, Bool.not_eq_true', Bool.eq_false_iff, ne_eq,
      List.contains_iff_mem, mem_paths_iff]
  · intro path
    exact mem_paths_iff
  · exact hneeded owner

/-- Nothing new is mapped. -/
theorem Removes.maps (h : Removes m left name owner removal) (hl : left.Maps path) : m.Maps path := by
  cases hl with
  | @imported other entry =>
      rw [h.imports other] at entry
      split at entry
      · cases entry
      · exact .imported entry
  | @inScope directory other scope found entry =>
      by_cases hneeds : (m.without name).Needs directory
      · exact .inScope ((h.kept directory hneeds).symm.trans found) entry
      · rw [h.dropped directory hneeds] at found
        cases found

/-! A second removal -/

theorem Removes.needs_iff (h : Removes m left name owner removal) {directory : String} :
    (left.without name).Needs directory ↔ (m.without name).Needs directory := by
  have himports (other : String) : (left.without name).imports.get? other =
      (m.without name).imports.get? other := by
    rw [without, without, Dictionary.get?_erase, Dictionary.get?_erase, h.imports]
    split <;> rfl
  constructor
  · intro hn
    induction hn with
    | @imported other path entry => exact .imported ((himports other).symm.trans entry)
    | @inScope directory other path scope _ found entry ih =>
        exact .inScope ih ((h.kept directory ih).symm.trans found) entry
  · intro hn
    induction hn with
    | @imported other path entry => exact .imported ((himports other).trans entry)
    | @inScope directory other path scope needed found entry ih =>
        exact .inScope ih ((h.kept directory needed).trans found) entry

theorem Removes.again {left' : ImportMap} {removal' : Removal} (h : Removes m left name owner removal)
    (h' : Removes left left' name owner removal') : removal'.scopes = [] ∧ removal'.orphaned = [] := by
  constructor
  · apply List.eq_nil_iff_forall_not_mem.2
    intro directory hmem
    obtain ⟨⟨scope, hscope⟩, hneeds⟩ := (h'.scopes directory).1 hmem
    rw [h.dropped directory (h.needs_iff.not.1 hneeds)] at hscope
    cases hscope
  · apply List.eq_nil_iff_forall_not_mem.2
    intro path hmem
    obtain ⟨hmaps, hnot⟩ := (h'.orphaned path).1 hmem
    apply hnot
    cases hmaps with
    | @imported other entry =>
        apply Maps.imported
        rw [h'.imports other, ← entry, h.imports other]
        split <;> rfl
    | @inScope directory other scope found entry =>
        have hneeds : (left.without name).Needs directory := by
          by_contra hn
          rw [h.dropped directory (h.needs_iff.not.1 hn)] at found
          cases found
        exact .inScope ((h'.kept directory hneeds).trans found) entry

theorem Removes.of_empty (h : Removes .empty left name owner removal) :
    removal.scopes = [] ∧ removal.orphaned = [] := by
  constructor
  · apply List.eq_nil_iff_forall_not_mem.2
    intro directory hmem
    obtain ⟨⟨scope, hscope⟩, -⟩ := (h.scopes directory).1 hmem
    cases hscope
  · apply List.eq_nil_iff_forall_not_mem.2
    intro path hmem
    obtain ⟨hmaps, -⟩ := (h.orphaned path).1 hmem
    cases hmaps with
    | imported entry => cases entry
    | inScope found entry => cases found

/-! Documents in files -/

variable {t : FileTree} {text : String} {document : Json}

/-- A change of the map in a file that can be read changes that file and nothing else. -/
theorem perform_change_eq {α : Type} (h : t.read path = .ok text) (edit : Json → Json × α) :
    perform (change path edit) t =
      (.ok (edit (documentIn path t)).2,
        t.put (Path.place path) (.file ((edit (documentIn path t)).1.pretty ++ "\n"))) := by
  have hdirectory (draft : Draft α) : directoryStep path draft t = (draft, t) := by
    rw [directoryStep.eq_def]
    split
    · rename_i written directory hparent
      rw [FileTree.makeDirectories_above h hparent]
    · rfl
  simp only [perform, change, Schedule.Section.runAlone, List.foldl_cons, List.foldl_nil, readStep, hdirectory,
    writeStep, FileTree.write_existing h]
  rfl

theorem removeDependency_eq (h : t.read path = .ok text) (name owner : String) :
    removeDependency path name owner t =
      (.ok (removeIn name owner (documentIn path t)).2,
        t.put (Path.place path) (.file ((removeIn name owner (documentIn path t)).1.pretty ++ "\n"))) :=
  perform_change_eq h (removeIn name owner)

theorem persist_eq (h : t.read path = .ok text) (m : ImportMap) :
    persist path m t =
      (.ok (), t.put (Path.place path) (.file ((m.persistIn (documentIn path t)).pretty ++ "\n"))) :=
  perform_change_eq h fun document => (m.persistIn document, ())

theorem documentIn_of_readable (hr : t.read path = .ok text) (hj : Json.read text = .ok document) :
    documentIn path t = document := by
  rw [documentIn, hr]
  simp only [hj]
  rfl

/-- Once a name has been removed from the map in a file, it can be removed again without an effect. -/
theorem removeDependency_again {t' : FileTree} (hm : ofJson? document = some m)
    (h : Removes m left name owner removal)
    (hr : t'.read path = .ok ((left.replaceIn document).pretty ++ "\n")) :
    ∃ again t'', removeDependency path name owner t' = (.ok again, t'') ∧
      again.scopes = [] ∧ again.orphaned = [] := by
  refine ⟨_, _, removeDependency_eq hr name owner, ?_⟩
  have hremoves := removes_remove (ofDocument (documentIn path t')) name owner
  cases hj : Json.read ((left.replaceIn document).pretty ++ "\n") with
  | error e =>
      have hnone : documentIn path t' = .object [] := by
        rw [documentIn, hr]
        simp only [hj]
        rfl
      have hempty : ofDocument (documentIn path t') = .empty := by
        rw [hnone]
        rfl
      rw [hempty] at hremoves
      rw [removeIn, hempty]
      exact hremoves.of_empty
  | ok document' =>
      have hleft : ofDocument (documentIn path t') = left := by
        rw [documentIn_of_readable hr hj, ofDocument, ofJson?_of_read_pretty hm hj]
        rfl
      rw [hleft] at hremoves
      rw [removeIn, hleft]
      exact h.again hremoves

theorem exists_of_paths (t : FileTree) (path : String) {paths : List String}
    (h : (((t.read path).toOption.bind fun text => (Json.read text).toOption).bind ofJson?).map ImportMap.paths =
      some paths) :
    ∃ text document m, t.read path = .ok text ∧ Json.read text = .ok document ∧ ofJson? document = some m ∧
      m.paths = paths := by
  cases hr : t.read path with
  | error e => simp [hr, Except.toOption] at h
  | ok text =>
      cases hj : Json.read text with
      | error e => simp [hr, hj, Except.toOption] at h
      | ok document =>
          simp only [hr, hj, Except.toOption, Option.bind_some] at h
          obtain ⟨m, hm, hpaths⟩ := Option.map_eq_some_iff.1 h
          exact ⟨text, document, m, rfl, hj, hm, hpaths⟩

/-- The removal of a name from a file that holds a map: what the file holds after it, what is told
about it, and that the same removal has nothing more to do. -/
theorem removeDependency_sweeps (hr : t.read path = .ok text) (hj : Json.read text = .ok document)
    (hm : ofJson? document = some m) (name owner : String) :
    ∃ removal t' document' left, removeDependency path name owner t = (.ok removal, t') ∧
      t'.read path = .ok (document'.pretty ++ "\n") ∧ ofJson? document' = some left ∧
      (∀ field, field ≠ "imports" → field ≠ "scopes" → document'.get? field = document.get? field) ∧
      Removes m left name owner removal ∧
      ∃ again t'', removeDependency path name owner t' = (.ok again, t'') ∧
        again.scopes = [] ∧ again.orphaned = [] := by
  have hrun := removeDependency_eq hr name owner
  have hmap : ofDocument document = m := by
    rw [ofDocument, hm]
    rfl
  rw [documentIn_of_readable hr hj, removeIn, hmap] at hrun
  have hremoves := removes_remove m name owner
  generalize m.remove name owner = removed at hrun hremoves
  obtain ⟨left, removal⟩ := removed
  have hread := FileTree.read_of_write (FileTree.write_existing hr ((left.replaceIn document).pretty ++ "\n"))
  exact ⟨removal, _, left.replaceIn document, left, hrun, hread, ofJson?_replaceIn hm left,
    fun field hi hs => get?_replaceIn hi hs left document, hremoves,
    removeDependency_again hm hremoves hread⟩

/-- A map in which two scopes need each other, and another one itself. -/
def circularTree : FileTree :=
  ⟨[(["import-map.json"], .file
    ("\x7b\"imports\":\x7b\"a\":\"/w/a/1/a.js\",\"d\":\"/w/d/1/d.js\"\x7d,\"scopes\":\x7b" ++
      "\"/w/a/1/\":\x7b\"b\":\"/w/b/1/b.js\"\x7d,\"/w/b/1/\":\x7b\"a\":\"/w/a/1/a.js\"\x7d," ++
      "\"/w/d/1/\":\x7b\"d\":\"/w/d/1/d.js\"\x7d\x7d,\"note\":1.5\x7d"))]⟩

theorem removeDependency_sweeps_circular : ∃ removal t' again t'',
    removeDependency "/import-map.json" "a" "/w/a/1/" circularTree = (.ok removal, t') ∧
      removal.scopes = ["/w/a/1/", "/w/b/1/"] ∧ removal.orphaned = ["/w/a/1/a.js", "/w/b/1/b.js"] ∧
      removeDependency "/import-map.json" "a" "/w/a/1/" t' = (.ok again, t'') ∧
      again.scopes = [] ∧ again.orphaned = [] := by
  obtain ⟨text, document, m, hr, hj, hm, -⟩ := exists_of_paths circularTree "/import-map.json"
    (show _ = some ["/w/a/1/a.js", "/w/b/1/b.js", "/w/d/1/d.js"] by decide +kernel)
  obtain ⟨removal, t', document', left, hrun, -, -, -, -, again, t'', hagain, hnone⟩ :=
    removeDependency_sweeps hr hj hm "a" "/w/a/1/"
  have htold : ((removeDependency "/import-map.json" "a" "/w/a/1/" circularTree).1.toOption.map
      fun removal => (removal.scopes, removal.orphaned)) =
        some (["/w/a/1/", "/w/b/1/"], ["/w/a/1/a.js", "/w/b/1/b.js"]) := by
    decide +kernel
  rw [hrun] at htold
  simp only [Except.toOption, Option.map_some, Option.some.injEq, Prod.mk.injEq] at htold
  exact ⟨removal, t', again, t'', hrun, htold.1, htold.2, hagain, hnone⟩

end WebModules.ImportMap
